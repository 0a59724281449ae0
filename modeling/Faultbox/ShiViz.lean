-- The combined ShiViz trace (WriteShiVizTrace): the tests' events in one log, their clocks shifted
-- by the largest components before the test. The law: on each host the own component rises, the
-- order of a test's events stays, and nothing of a later test happens before an earlier one. An
-- event without a service has no clock, so the last part is about the events of a host.
import Faultbox.Causality

open goval faultbox.event_log faultbox.causality

namespace faultbox.shiviz

/-! ## WriteShiVizTrace -/

structure TestResult where
  name : String
  result : String
  reason : String
  events : List Event

/-- The clock with every entry shifted; a missing offset reads as 0. -/
def shift (offset vc : GoMap String Int) : GoMap String Int :=
  storeAll ∅ ((pairs vc).map fun e => (e.1, e.2 + component offset e.1))

def track (maxClock vc : GoMap String Int) : GoMap String Int :=
  vc.entries.foldl (fun m e => if component m e.1 < e.2 then m.insert e.1 e.2 else m) maxClock

structure Combined where
  log : EventLog
  maxClock : GoMap String Int

def Combined.append (c : Combined) (ev : Event) (maxClock : GoMap String Int) : Combined :=
  ⟨{ c.log with events := c.log.events ++ [{ ev with seq := c.log.seq + 1 }],
                seq := c.log.seq + 1 }, maxClock⟩

def Combined.addEvent (offset : GoMap String Int) (c : Combined) (ev : Event) : Combined :=
  let vc := shift offset ev.vectorClock
  c.append { ev with vectorClock := vc } (track c.maxClock vc)

/-- The marker of a failed test. -/
def Combined.mark (c : Combined) (tr : TestResult) : Combined :=
  let vc := c.maxClock.insert "test" (component c.maxClock "test" + 1)
  let reason := if tr.reason = "" then "test failed" else tr.reason
  c.append ⟨0, "violation", "violation", "", "test",
    storeAll ∅ [("test", tr.name), ("reason", reason)], vc⟩ vc

def Combined.addTest (c : Combined) (tr : TestResult) : Combined :=
  let c' := tr.events.foldl (Combined.addEvent c.maxClock) c
  if tr.result = "fail" then c'.mark tr else c'

/-- The log that `WriteShiVizTrace` formats. -/
def writeShiVizTrace (tests : List TestResult) : Combined :=
  tests.foldl Combined.addTest ⟨newEventLog, ∅⟩

/-! ## What an event log gives -/

def own (e : Event) : Int := component e.vectorClock e.service

def Positive (vc : GoMap String Int) : Prop := ∀ name v, vc.lookup name = some v → 0 < v

def Rises (a b : Event) : Prop := a.service = b.service → a.service ≠ "" → own a < own b

/-- The events are part of a log. -/
def FromLog (events : List Event) : Prop := ∃ ops, events.Sublist (logAfter ops).events

structure Stamped (l : EventLog) : Prop where
  clocks : ∀ service, Positive (clockOf l service)
  events : ∀ e ∈ l.events, Positive e.vectorClock ∧
    (e.service ≠ "" → 0 < own e ∧ own e ≤ component (clockOf l e.service) e.service)
  rising : l.events.Pairwise Rises

theorem Positive.nonNeg {vc : GoMap String Int} (h : Positive vc) : NonNeg vc := by
  intro name
  cases hl : vc.lookup name with
  | none => exact (component_of_none hl).ge
  | some v => exact (component_of_lookup hl).symm ▸ (h name v hl).le

theorem Positive.insert {vc : GoMap String Int} (h : Positive vc) (k : String) {v : Int}
    (hv : 0 < v) : Positive (vc.insert k v) := by
  intro name w hw
  by_cases hn : name = k
  · subst hn
    rw [AList.lookup_insert] at hw
    exact Option.some.inj hw ▸ hv
  · rw [AList.lookup_insert_ne hn] at hw
    exact h name w hw

theorem positive_empty : Positive ∅ := by
  intro name v h
  cases h

theorem positive_track {m : GoMap String Int} (h : Positive m) (vc : GoMap String Int) :
    Positive (track m vc) := by
  unfold track
  induction vc.entries generalizing m with
  | nil => exact h
  | cons e es ih =>
    rw [List.foldl_cons]
    apply ih
    split
    · rename_i hlt
      exact h.insert e.1 (lt_of_le_of_lt (h.nonNeg e.1) hlt)
    · exact h

theorem component_track {m : GoMap String Int} (h : NonNeg m) (vc : GoMap String Int)
    (name : String) : component (track m vc) name = max (component m name) (component vc name) :=
  component_merged vc.entries vc.nodupKeys m h name

section stamped

variable {l : EventLog} (h : Stamped l)
include h

theorem Stamped.positive_tick (service : String) : Positive (l.tick service) := by
  apply (h.clocks service).insert
  have hn := (h.clocks service).nonNeg service
  unfold clockOf at hn
  omega

theorem Stamped.emit (typ service : String) (fields : GoMap String String) :
    Stamped (l.emit typ service fields) := by
  have hev : (l.emit typ service fields).events = l.events ++ [l.newEvent typ service fields] :=
    rfl
  by_cases hs : service = ""
  · have hc (t : String) : clockOf (l.emit typ service fields) t = clockOf l t := by
      unfold clockOf EventLog.emit
      rw [if_pos hs]
    refine ⟨fun t => hc t ▸ h.clocks t, fun e he => ?_, ?_⟩
    · rw [hev, List.mem_append, List.mem_singleton] at he
      obtain he | rfl := he
      · rw [hc]
        exact h.events e he
      · have hvc : (l.newEvent typ service fields).vectorClock = ∅ := if_pos hs
        rw [hvc]
        exact ⟨positive_empty, fun hne => absurd hs hne⟩
    · rw [hev, List.pairwise_append]
      refine ⟨h.rising, List.pairwise_singleton _ _, fun a _ b hb hab hne => ?_⟩
      rw [List.mem_singleton.mp hb] at hab
      exact absurd (hab.trans hs) hne
  · have hvc : (l.newEvent typ service fields).vectorClock = l.tick service := if_neg hs
    have hown : own (l.newEvent typ service fields) =
        component (clockOf l service) service + 1 := by
      have ht := component_tick (l := l) service service
      rw [if_pos rfl] at ht
      rw [← ht, ← hvc]
      rfl
    have hn := (h.clocks service).nonNeg service
    refine ⟨fun t => ?_, fun e he => ?_, ?_⟩
    · rw [clockOf_emit typ fields hs]
      split
      · exact h.positive_tick service
      · exact h.clocks t
    · have hg : component (clockOf l e.service) e.service ≤
          component (clockOf (l.emit typ service fields) e.service) e.service := by
        rw [clockOf_emit typ fields hs]
        split
        · rename_i heq
          rw [heq, component_tick, if_pos rfl]
          omega
        · exact le_rfl
      rw [hev, List.mem_append, List.mem_singleton] at he
      obtain he | rfl := he
      · obtain ⟨hp, ho⟩ := h.events e he
        exact ⟨hp, fun hne => ⟨(ho hne).1, (ho hne).2.trans hg⟩⟩
      · refine ⟨hvc ▸ h.positive_tick service, fun _ => ⟨by omega, ?_⟩⟩
        have hse : (l.newEvent typ service fields).service = service := rfl
        rw [hse, clockOf_emit typ fields hs, if_pos rfl, component_tick, if_pos rfl, hown]
    · rw [hev, List.pairwise_append]
      refine ⟨h.rising, List.pairwise_singleton _ _, fun a ha b hb hab hne => ?_⟩
      obtain rfl := List.mem_singleton.mp hb
      have hle := ((h.events a ha).2 hne).2
      have hse : a.service = service := hab
      rw [hown]
      rw [hse] at hle
      omega

theorem Stamped.mergeClock (localName remote : String) :
    Stamped (l.mergeClock localName remote) := by
  have hev : (l.mergeClock localName remote).events = l.events := by
    unfold EventLog.mergeClock
    dsimp only
    split <;> rfl
  refine ⟨fun t => ?_, ?_, hev ▸ h.rising⟩
  · unfold EventLog.mergeClock clockOf
    dsimp only
    split
    · rw [lookup_getD_insert]
      split
      · exact h.clocks localName
      · exact h.clocks t
    · rename_i theirs hr
      rw [lookup_getD_insert]
      split
      · exact positive_track (h.clocks localName) theirs
      · exact h.clocks t
  · rw [hev]
    intro e he
    obtain ⟨hp, ho⟩ := h.events e he
    refine ⟨hp, fun hne => ⟨(ho hne).1, (ho hne).2.trans ?_⟩⟩
    rw [component_mergeClock fun s => (h.clocks s).nonNeg]
    split
    · rename_i heq
      rw [heq]
      exact le_max_left _ _
    · exact le_rfl

end stamped

theorem stamped_logAfter (ops : List Op) : Stamped (logAfter ops) := by
  induction ops using List.reverseRecOn with
  | nil => exact ⟨fun _ => positive_empty, fun _ he => absurd he List.not_mem_nil, .nil⟩
  | append_singleton ops op ih =>
    unfold logAfter at ih ⊢
    rw [List.foldl_append, List.foldl_cons, List.foldl_nil]
    cases op with
    | emit typ service fields => exact ih.emit typ service fields
    | mergeClock localName remote => exact ih.mergeClock localName remote

/-! ## Shifted clocks -/

section shifted

variable {offset vc vc' : GoMap String Int}

theorem lookup_shift (offset vc : GoMap String Int) (name : String) :
    (shift offset vc).lookup name = (vc.lookup name).map (· + component offset name) := by
  unfold shift
  cases hv : vc.lookup name with
  | none =>
    rw [lookup_storeAll_of_notMem]
    · rfl
    · simp only [List.map_map, List.mem_map, Function.comp_apply, not_exists, not_and]
      rintro ⟨k, v⟩ hm rfl
      rw [mem_pairs] at hm
      exact absurd (hv.symm.trans hm) (by simp)
  | some v =>
    have hk : name ∈ ((pairs vc).map fun e => (e.1, e.2 + component offset e.1)).map Prod.fst := by
      simpa using ⟨v, mem_pairs.mpr hv⟩
    obtain ⟨x, hx, hl⟩ := lookup_storeAll_of_mem ∅ hk
    rw [hl]
    simp only [List.mem_map, Prod.mk.injEq] at hx
    obtain ⟨⟨k, w⟩, hm, rfl, rfl⟩ := hx
    rw [mem_pairs, hv] at hm
    cases hm
    rfl

theorem component_shift (h : Positive vc) (name : String) : component (shift offset vc) name =
    if component vc name = 0 then 0 else component vc name + component offset name := by
  unfold component
  rw [lookup_shift]
  cases hv : vc.lookup name with
  | none => simp
  | some v =>
    have hp := h name v hv
    simp only [Option.map_some, Option.getD_some]
    rw [if_neg (by omega)]
    rfl

theorem positive_shift (ho : NonNeg offset) (h : Positive vc) : Positive (shift offset vc) := by
  intro name v hv
  rw [lookup_shift, Option.map_eq_some_iff] at hv
  obtain ⟨w, hw, rfl⟩ := hv
  have hp := h name w hw
  have hn := ho name
  omega

theorem vcHappensBefore_shift (ho : NonNeg offset) (h : Positive vc) (h' : Positive vc') :
    vcHappensBefore (shift offset vc) (shift offset vc') = vcHappensBefore vc vc' := by
  rw [Bool.eq_iff_iff, vcHappensBefore_iff (positive_shift ho h).nonNeg,
    vcHappensBefore_iff h.nonNeg]
  apply and_congr
  · apply forall_congr'
    intro name
    have hn := ho name
    have hv := h.nonNeg name
    have hv' := h'.nonNeg name
    rw [component_shift h, component_shift h']
    split <;> split <;> omega
  · apply exists_congr
    intro name
    have hn := ho name
    have hv := h.nonNeg name
    have hv' := h'.nonNeg name
    rw [component_shift h, component_shift h']
    split <;> split <;> omega

end shifted

/-! ## The combined log -/

/-- An event of a test, as it stands in the log. -/
def Shifts (offset : GoMap String Int) (ev ev' : Event) : Prop :=
  ev'.vectorClock = shift offset ev.vectorClock ∧ ev'.service = ev.service

/-- The maxima are above all clocks of the log. -/
structure Bounded (c : Combined) : Prop where
  positive : Positive c.maxClock
  events : ∀ e ∈ c.log.events, Positive e.vectorClock ∧
    ∀ name, component e.vectorClock name ≤ component c.maxClock name

/-- What is added to a log lies above the maxima before it, and rises. -/
structure Extends (c c' : Combined) (added : List Event) : Prop where
  events : c'.log.events = c.log.events ++ added
  bounded : Bounded c'
  grows : ∀ name, component c.maxClock name ≤ component c'.maxClock name
  above : ∀ e ∈ added, e.service ≠ "" → component c.maxClock e.service < own e
  rising : added.Pairwise Rises

section combined

variable {c c' c'' : Combined} {added added' : List Event}

theorem Extends.refl (h : Bounded c) : Extends c c [] :=
  ⟨(List.append_nil _).symm, h, fun _ => le_rfl, fun _ he => absurd he List.not_mem_nil, .nil⟩

theorem Extends.trans (h : Extends c c' added) (h' : Extends c' c'' added') :
    Extends c c'' (added ++ added') := by
  refine ⟨by rw [h'.events, h.events, List.append_assoc], h'.bounded,
    fun name => (h.grows name).trans (h'.grows name), fun e he hs => ?_, ?_⟩
  · obtain he | he := List.mem_append.mp he
    · exact h.above e he hs
    · exact lt_of_le_of_lt (h.grows _) (h'.above e he hs)
  · rw [List.pairwise_append]
    refine ⟨h.rising, h'.rising, fun a ha b hb hab hs => ?_⟩
    -- the maxima after `a` are at least its own component
    have hle := (h.bounded.events a (h.events ▸ List.mem_append_right _ ha)).2 a.service
    have hlt := h'.above b hb (hab ▸ hs)
    rw [← hab] at hlt
    exact lt_of_le_of_lt hle hlt

theorem Bounded.append (h : Bounded c) {ev : Event} {m : GoMap String Int} (hm : Positive m)
    (hev : Positive ev.vectorClock) (hle : ∀ name, component ev.vectorClock name ≤ component m name)
    (hg : ∀ name, component c.maxClock name ≤ component m name) : Bounded (c.append ev m) := by
  refine ⟨hm, fun e he => ?_⟩
  obtain he | he := List.mem_append.mp he
  · exact ⟨(h.events e he).1, fun name => ((h.events e he).2 name).trans (hg name)⟩
  · rw [List.mem_singleton.mp he]
    exact ⟨hev, hle⟩

/-- The events of a test, one by one. -/
theorem addEvents_shifts {offset : GoMap String Int} (ho : NonNeg offset) (evs : List Event)
    (hp : ∀ e ∈ evs, Positive e.vectorClock) (h : Bounded c) :
    ∃ added, List.Forall₂ (Shifts offset) evs added ∧
      (evs.foldl (Combined.addEvent offset) c).log.events = c.log.events ++ added ∧
      Bounded (evs.foldl (Combined.addEvent offset) c) ∧
      ∀ name, component c.maxClock name ≤
        component (evs.foldl (Combined.addEvent offset) c).maxClock name := by
  induction evs generalizing c with
  | nil => exact ⟨[], .nil, (List.append_nil _).symm, h, fun _ => le_rfl⟩
  | cons ev evs ih =>
    have hev := positive_shift ho (hp ev List.mem_cons_self)
    have ht := component_track h.positive.nonNeg (shift offset ev.vectorClock)
    have hg (name : String) : component c.maxClock name ≤
        component (c.addEvent offset ev).maxClock name := (le_max_left _ _).trans (ht name).ge
    have hb : Bounded (c.addEvent offset ev) :=
      h.append (positive_track h.positive _) hev (fun n => (le_max_right _ _).trans (ht n).ge) hg
    obtain ⟨added, hs, he, hb', hg'⟩ := ih (fun e he => hp e (List.mem_cons_of_mem _ he)) hb
    refine ⟨{ ev with vectorClock := shift offset ev.vectorClock, seq := c.log.seq + 1 } :: added,
      .cons ⟨rfl, rfl⟩ hs, ?_, hb', fun name => (hg name).trans (hg' name)⟩
    rw [List.foldl_cons, he]
    exact List.append_assoc _ [_] added

/-- What the events of a log bring along. -/
theorem fromLog_spec {evs : List Event} (h : FromLog evs) :
    (∀ e ∈ evs, Positive e.vectorClock ∧ (e.service ≠ "" → 0 < own e)) ∧ evs.Pairwise Rises := by
  obtain ⟨ops, hs⟩ := h
  have hl := stamped_logAfter ops
  refine ⟨fun e he => ?_, hl.rising.sublist hs⟩
  obtain ⟨hp, ho⟩ := hl.events e (hs.subset he)
  exact ⟨hp, fun hne => (ho hne).1⟩

theorem Shifts.own_eq {offset : GoMap String Int} {ev ev' : Event} (h : Shifts offset ev ev')
    (hp : Positive ev.vectorClock) (ho : 0 < own ev) :
    own ev' = own ev + component offset ev.service := by
  unfold own at ho ⊢
  rw [h.1, h.2, component_shift hp, if_neg (by omega)]

theorem extends_events (h : Bounded c) {evs : List Event} (hev : FromLog evs) :
    ∃ added, List.Forall₂ (Shifts c.maxClock) evs added ∧
      Extends c (evs.foldl (Combined.addEvent c.maxClock) c) added := by
  obtain ⟨hp, hr⟩ := fromLog_spec hev
  obtain ⟨added, hs, he, hb, hg⟩ :=
    addEvents_shifts h.positive.nonNeg evs (fun e he => (hp e he).1) h
  have hlen := hs.length_eq
  -- an event of a host, read off the event it comes from
  have hown (i : Nat) (hi : i < evs.length) (hi' : i < added.length)
      (hne : added[i].service ≠ "") : evs[i].service = added[i].service ∧ 0 < own evs[i] ∧
      own added[i] = own evs[i] + component c.maxClock added[i].service := by
    have hsh : Shifts c.maxClock evs[i] added[i] := hs.get hi hi'
    obtain ⟨hc, ho⟩ := hp evs[i] (List.getElem_mem hi)
    have hpos := ho (hsh.2 ▸ hne)
    exact ⟨hsh.2.symm, hpos, hsh.2 ▸ hsh.own_eq hc hpos⟩
  refine ⟨added, hs, he, hb, hg, fun e he hne => ?_, ?_⟩
  · obtain ⟨i, hi, rfl⟩ := List.mem_iff_getElem.mp he
    obtain ⟨-, hpos, heq⟩ := hown i (hlen ▸ hi) hi hne
    omega
  · rw [List.pairwise_iff_getElem] at hr ⊢
    intro i j hi hj hij hab hne
    obtain ⟨hsa, -, hoa⟩ := hown i (hlen ▸ hi) hi hne
    obtain ⟨hsb, -, hob⟩ := hown j (hlen ▸ hj) hj (hab ▸ hne)
    have hlt := hr i j (hlen ▸ hi) (hlen ▸ hj) hij (by rw [hsa, hsb, hab]) (hsa ▸ hne)
    rw [hoa, hob, hab]
    omega

theorem extends_mark (h : Bounded c) (tr : TestResult) : ∃ e, Extends c (c.mark tr) [e] := by
  have hn := h.positive.nonNeg "test"
  have hc := component_insert c.maxClock "test" (component c.maxClock "test" + 1)
  have hg (name : String) : component c.maxClock name ≤
      component (c.maxClock.insert "test" (component c.maxClock "test" + 1)) name := by
    rw [hc]
    split
    · rename_i heq
      rw [heq]
      omega
    · exact le_rfl
  have hp := h.positive.insert "test" (v := component c.maxClock "test" + 1) (by omega)
  refine ⟨_, rfl, h.append hp hp (fun _ => le_rfl) hg, hg, ?_, List.pairwise_singleton _ _⟩
  intro e he _
  obtain rfl := List.mem_singleton.mp he
  have ht := hc "test"
  rw [if_pos rfl] at ht
  exact (Int.lt_succ (component c.maxClock "test")).trans_eq ht.symm

theorem extends_addTest (h : Bounded c) {tr : TestResult} (hev : FromLog tr.events) :
    ∃ added rest, List.Forall₂ (Shifts c.maxClock) tr.events added ∧
      Extends c (c.addTest tr) (added ++ rest) := by
  obtain ⟨added, hs, he⟩ := extends_events h hev
  unfold Combined.addTest
  dsimp only
  split
  · obtain ⟨e, hm⟩ := extends_mark he.bounded tr
    exact ⟨added, [e], hs, he.trans hm⟩
  · exact ⟨added, [], hs, (List.append_nil added).symm ▸ he⟩

theorem extends_tests (h : Bounded c) {tests : List TestResult}
    (ht : ∀ tr ∈ tests, FromLog tr.events) :
    ∃ added, Extends c (tests.foldl Combined.addTest c) added := by
  induction tests generalizing c with
  | nil => exact ⟨[], .refl h⟩
  | cons tr rest ih =>
    obtain ⟨added, more, -, he⟩ := extends_addTest h (ht tr List.mem_cons_self)
    obtain ⟨later, hl⟩ := ih he.bounded fun tr' hm => ht tr' (List.mem_cons_of_mem _ hm)
    exact ⟨_, he.trans hl⟩

theorem not_happensBefore_of_above {a b : Event} (hb : Positive b.vectorClock)
    (h : component a.vectorClock b.service < own b) : happensBefore b a = false := by
  rw [Bool.eq_false_iff]
  intro hc
  have hle := ((vcHappensBefore_iff hb.nonNeg).mp hc).1 b.service
  exact absurd h (not_lt.mpr hle)

end combined

theorem bounded_start : Bounded ⟨newEventLog, ∅⟩ :=
  ⟨positive_empty, fun _ he => absurd he List.not_mem_nil⟩

/-! ## The law -/

/-- The events of the trace after some tests. -/
def traced (tests : List TestResult) : List Event := (writeShiVizTrace tests).log.events

structure KeepsCausality (tests : List TestResult) : Prop where
  rising : (traced tests).Pairwise Rises
  ordered : ∀ pre tr post, tests = pre ++ tr :: post → ∀ i j a b, tr.events[i]? = some a →
    tr.events[j]? = some b → ∃ a' b', (traced tests)[(traced pre).length + i]? = some a' ∧
      (traced tests)[(traced pre).length + j]? = some b' ∧
      happensBefore a' b' = happensBefore a b
  forward : ∀ pre post, tests = pre ++ post → ∃ later, traced tests = traced pre ++ later ∧
    ∀ a ∈ traced pre, ∀ b ∈ later, b.service ≠ "" → happensBefore b a = false

theorem traced_forward {pre post : List TestResult}
    (h : ∀ tr ∈ pre ++ post, FromLog tr.events) : ∃ later,
    Extends (writeShiVizTrace pre) (writeShiVizTrace (pre ++ post)) later := by
  obtain ⟨_, hp⟩ := extends_tests bounded_start fun tr hm => h tr (List.mem_append_left _ hm)
  unfold writeShiVizTrace
  rw [List.foldl_append]
  exact extends_tests hp.bounded fun tr hm => h tr (List.mem_append_right _ hm)

theorem traced_ordered {pre post : List TestResult} {tr : TestResult}
    (h : ∀ t ∈ pre ++ tr :: post, FromLog t.events) {i j : Nat} {a b : Event}
    (ha : tr.events[i]? = some a) (hb : tr.events[j]? = some b) : ∃ a' b',
    (traced (pre ++ tr :: post))[(traced pre).length + i]? = some a' ∧
    (traced (pre ++ tr :: post))[(traced pre).length + j]? = some b' ∧
    happensBefore a' b' = happensBefore a b := by
  have htr : FromLog tr.events := h tr (by simp)
  obtain ⟨_, hp⟩ := extends_tests bounded_start fun t hm => h t (List.mem_append_left _ hm)
  obtain ⟨added, more, hs, he⟩ := extends_addTest hp.bounded htr
  obtain ⟨later, hl⟩ := extends_tests he.bounded fun t hm =>
    h t (List.mem_append_right _ (List.mem_cons_of_mem _ hm))
  have hev : traced (pre ++ tr :: post) = traced pre ++ (added ++ (more ++ later)) := by
    unfold traced writeShiVizTrace
    rw [List.foldl_append, List.foldl_cons, hl.events, he.events]
    simp only [List.append_assoc]
  obtain ⟨hi, rfl⟩ := List.getElem?_eq_some_iff.mp ha
  obtain ⟨hj, rfl⟩ := List.getElem?_eq_some_iff.mp hb
  have hi' : i < added.length := hs.length_eq ▸ hi
  have hj' : j < added.length := hs.length_eq ▸ hj
  have hat (k : Nat) (hk : k < added.length) :
      (traced (pre ++ tr :: post))[(traced pre).length + k]? = some added[k] := by
    rw [hev, List.getElem?_append_right (Nat.le_add_right _ _), Nat.add_sub_cancel_left,
      List.getElem?_append_left hk, List.getElem?_eq_getElem hk]
  refine ⟨_, _, hat i hi', hat j hj', ?_⟩
  have hc := (fromLog_spec htr).1
  have hsi : added[i].vectorClock = shift _ tr.events[i].vectorClock := (hs.get hi hi').1
  have hsj : added[j].vectorClock = shift _ tr.events[j].vectorClock := (hs.get hj hj').1
  unfold happensBefore
  rw [hsi, hsj]
  exact vcHappensBefore_shift hp.bounded.positive.nonNeg (hc _ (List.getElem_mem hi)).1
    (hc _ (List.getElem_mem hj)).1

/-- The law of the combined trace. -/
theorem trace_keeps_causality (tests : List TestResult) (h : ∀ tr ∈ tests, FromLog tr.events) :
    KeepsCausality tests := by
  refine ⟨?_, ?_, ?_⟩
  · obtain ⟨added, ht⟩ := extends_tests bounded_start h
    unfold traced writeShiVizTrace
    rw [ht.events]
    exact ht.rising
  · rintro pre tr post rfl i j a b ha hb
    exact traced_ordered h ha hb
  · rintro pre post rfl
    obtain ⟨_, hp⟩ := extends_tests bounded_start fun t hm => h t (List.mem_append_left _ hm)
    obtain ⟨later, he⟩ := traced_forward h
    refine ⟨later, he.events, fun a ha b hb hne => ?_⟩
    have hle := (hp.bounded.events a ha).2 b.service
    have hpb := (he.bounded.events b (he.events ▸ List.mem_append_right _ hb)).1
    exact not_happensBefore_of_above hpb (lt_of_le_of_lt hle (he.above b hb hne))

/-! ## Two tests -/

def dbOps : List Op := [.emit "syscall" "db" ∅]

/-- A failed test, then one whose second event is a fault marker without a service. -/
def twoTests : List TestResult :=
  [⟨"first", "fail", "", (logAfter dbOps).events⟩,
   ⟨"second", "pass", "", (logAfter (dbOps ++ [.emit "fault_applied" "" ∅])).events⟩]

theorem twoTests_fromLog : ∀ tr ∈ twoTests, FromLog tr.events := by
  intro tr htr
  obtain rfl | htr := List.mem_cons.mp htr
  · exact ⟨_, .refl _⟩
  · obtain rfl := List.mem_singleton.mp htr
    exact ⟨_, .refl _⟩

theorem twoTests_keep : (∀ tr ∈ twoTests, FromLog tr.events) ∧ KeepsCausality twoTests :=
  ⟨twoTests_fromLog, trace_keeps_causality twoTests twoTests_fromLog⟩

/-- An event of no host keeps its empty clock, which is below every other one. -/
theorem later_marker_before_first_test : (∀ tr ∈ twoTests, FromLog tr.events) ∧
    (traced (twoTests.take 1)).length = 2 ∧ ∃ a b, (traced twoTests)[0]? = some a ∧
      (traced twoTests)[3]? = some b ∧ b.service = "" ∧ happensBefore b a = true :=
  ⟨twoTests_fromLog, rfl, _, _, rfl, rfl, rfl, by decide⟩

end faultbox.shiviz
