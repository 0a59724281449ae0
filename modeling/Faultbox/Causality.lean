-- The happens-before query of the trace (internal/star/trace.go) over the vector
-- clocks that the event log records. Between events with a service it is exactly
-- causality. An event without a service has no clock, and the query puts it
-- before every event that has one.
import Faultbox.EventLog
import Faultbox.VectorClocks

open goval faultbox.event_log

namespace faultbox.causality

/-! ## The operations on a log -/

/-- `Emit` and `MergeClock`. -/
inductive Op where
  | emit (typ service : String) (fields : GoMap String String)
  | mergeClock (localName remote : String)

def applyOp (l : EventLog) : Op → EventLog
  | .emit typ service fields => l.emit typ service fields
  | .mergeClock localName remote => l.mergeClock localName remote

def logAfter (ops : List Op) : EventLog := ops.foldl applyOp newEventLog

/-- The event that operation `i` recorded. -/
def recordedBy (ops : List Op) (i : Nat) : Option Event :=
  match ops[i]? with
  | some (.emit typ service fields) => some ((logAfter (ops.take i)).newEvent typ service fields)
  | _ => none

/-! ## The query -/

/-- `vcHappensBefore`. Each of the two loops over a map only asks whether some
entry ends it, so the order of the entries is of no account. -/
def vcHappensBefore (vc1 vc2 : GoMap String Int) : Bool :=
  if (pairs vc1).length = 0 ∧ (pairs vc2).length = 0 then false
  else if (pairs vc2).any fun e => decide (component vc1 e.1 > e.2) then false
  else if (pairs vc1).any fun e => (vc2.lookup e.1).isNone && decide (e.2 > 0) then false
  else (pairs vc2).any fun e => decide (component vc1 e.1 < e.2)

/-- `EventVal.happensBefore`. -/
def happensBefore (a b : Event) : Bool := vcHappensBefore a.vectorClock b.vectorClock

/-! ## Chains of causes -/

def actOf : Op → vclock.Act String
  | .emit _ service _ => if service = "" then .idle else .tick service
  | .mergeClock localName remote => .merge localName remote

/-- A chain of same-service successions and of runs of merges leads from `a` to `b`. -/
def Chain (ops : List Op) (a b : Event) : Prop :=
  ∃ i j, recordedBy ops i = some a ∧ recordedBy ops j = some b ∧
    vclock.Causes (ops.map actOf) i j

/-! ## Components of clocks -/

section clocks

variable {vc vc1 vc2 mine : GoMap String Int} {name : String}

@[simp] theorem component_empty (name : String) : component ∅ name = 0 := rfl

theorem component_of_lookup {v : Int} (h : vc.lookup name = some v) : component vc name = v := by
  rw [component, h, Option.getD_some]

theorem component_insert (vc : GoMap String Int) (k : String) (v : Int) (name : String) :
    component (vc.insert k v) name = if name = k then v else component vc name := by
  rw [component]
  split
  · rename_i h
    subst h
    rw [AList.lookup_insert, Option.getD_some]
  · rename_i h
    rw [AList.lookup_insert_ne h, component]

/-- A clock with no negative component. -/
def NonNeg (vc : GoMap String Int) : Prop := ∀ name, 0 ≤ component vc name

/-- One entry of the loop of `MergeClock`. -/
theorem component_takeOver (vc : GoMap String Int) (k : String) (v : Int) (name : String) :
    component (if component vc k < v then vc.insert k v else vc) name =
      if name = k then max (component vc k) v else component vc name := by
  split
  · rename_i hlt
    rw [component_insert, max_eq_right (le_of_lt hlt)]
  · rename_i hlt
    rw [max_eq_left (not_lt.mp hlt)]
    split
    · rename_i h
      rw [h]
    · rfl

/-- The loop of `MergeClock` leaves the greater component of the two clocks. -/
theorem component_merged (es : List (Sigma fun _ : String => Int)) (hn : es.NodupKeys)
    (mine : GoMap String Int) (hm : NonNeg mine) (name : String) :
    component (es.foldl
      (fun vc kv => if component vc kv.1 < kv.2 then vc.insert kv.1 kv.2 else vc) mine) name =
      max (component mine name) ((es.dlookup name).getD 0) := by
  induction es generalizing mine with
  | nil => exact (max_eq_left (hm name)).symm
  | cons e es ih =>
    obtain ⟨k, v⟩ := e
    obtain ⟨hk, hn'⟩ := List.nodupKeys_cons.mp hn
    have hm' : NonNeg (if component mine k < v then mine.insert k v else mine) := by
      intro q
      rw [component_takeOver]
      split
      · exact le_trans (hm k) (le_max_left _ _)
      · exact hm q
    rw [List.foldl_cons, ih hn' _ hm', component_takeOver]
    by_cases hq : name = k
    · subst hq
      rw [if_pos rfl, List.dlookup_cons_eq, List.dlookup_eq_none.mpr hk, Option.getD_none,
        Option.getD_some]
      exact max_eq_left (le_trans (hm name) (le_max_left _ _))
    · rw [if_neg hq, List.dlookup_cons_ne es ⟨k, v⟩ hq]

theorem any_smaller_iff : ((pairs vc2).any fun e => decide (component vc1 e.1 < e.2)) = true ↔
    ∃ name v, vc2.lookup name = some v ∧ component vc1 name < v := by
  simp only [List.any_eq_true, decide_eq_true_eq, Prod.exists, mem_pairs]

theorem any_greater_iff : ((pairs vc2).any fun e => decide (component vc1 e.1 > e.2)) = true ↔
    ∃ name v, vc2.lookup name = some v ∧ v < component vc1 name := by
  simp only [List.any_eq_true, decide_eq_true_eq, Prod.exists, mem_pairs, gt_iff_lt]

theorem any_missing_iff :
    ((pairs vc1).any fun e => (vc2.lookup e.1).isNone && decide (e.2 > 0)) = true ↔
      ∃ name v, vc1.lookup name = some v ∧ vc2.lookup name = none ∧ 0 < v := by
  simp only [List.any_eq_true, Bool.and_eq_true, Option.isNone_iff_eq_none, decide_eq_true_eq,
    Prod.exists, mem_pairs, gt_iff_lt]

theorem component_of_none (h : vc.lookup name = none) : component vc name = 0 := by
  rw [component, h, Option.getD_none]

theorem components_le_iff :
    (¬ (∃ name v, vc2.lookup name = some v ∧ v < component vc1 name) ∧
        ¬ ∃ name v, vc1.lookup name = some v ∧ vc2.lookup name = none ∧ 0 < v) ↔
      ∀ name, component vc1 name ≤ component vc2 name := by
  constructor
  · rintro ⟨hg, hm⟩ name
    by_contra hlt
    cases h2 : vc2.lookup name with
    | some v =>
      rw [component_of_lookup h2] at hlt
      exact hg ⟨name, v, h2, not_le.mp hlt⟩
    | none =>
      rw [component_of_none h2] at hlt
      cases h1 : vc1.lookup name with
      | some v =>
        rw [component_of_lookup h1] at hlt
        exact hm ⟨name, v, h1, h2, not_le.mp hlt⟩
      | none => exact hlt (component_of_none h1).le
  · intro hle
    constructor
    · rintro ⟨name, v, h2, hlt⟩
      exact absurd (component_of_lookup h2 ▸ hle name) (not_le.mpr hlt)
    · rintro ⟨name, v, h1, h2, hpos⟩
      have hz := hle name
      rw [component_of_lookup h1, component_of_none h2] at hz
      exact absurd hz (not_le.mpr hpos)

theorem vcHappensBefore_iff (h1 : NonNeg vc1) :
    vcHappensBefore vc1 vc2 = true ↔
      (∀ name, component vc1 name ≤ component vc2 name) ∧
        ∃ name, component vc1 name < component vc2 name := by
  have hs : (∃ name v, vc2.lookup name = some v ∧ component vc1 name < v) ↔
      ∃ name, component vc1 name < component vc2 name := by
    constructor
    · rintro ⟨name, v, h2, hlt⟩
      exact ⟨name, by rwa [component_of_lookup h2]⟩
    · rintro ⟨name, hlt⟩
      cases h2 : vc2.lookup name with
      | some v => exact ⟨name, v, h2, component_of_lookup h2 ▸ hlt⟩
      | none =>
        rw [component_of_none h2] at hlt
        exact absurd (h1 name) (not_le.mpr hlt)
  rw [← components_le_iff, ← hs, ← any_smaller_iff, ← any_greater_iff, ← any_missing_iff]
  unfold vcHappensBefore
  split_ifs with he hg hm
  · have hn : pairs vc2 = [] := List.eq_nil_of_length_eq_zero he.2
    simp [hn]
  · simp [hg]
  · simp [hm]
  · simp [hg, hm]

end clocks

/-! ## The log keeps the vector clocks -/

section simulation

variable {l : EventLog} {c : vclock.Clocks String} {ops : List Op} {i j k : Nat} {a b : Event}

def clockOf (l : EventLog) (service : String) : GoMap String Int :=
  (l.clocks.lookup service).getD ∅

/-- The clocks of the log are the clocks of the history. -/
def Agrees (l : EventLog) (c : vclock.Clocks String) : Prop :=
  ∀ service name, component (clockOf l service) name = (c service name : Int)

theorem Agrees.nonNeg (h : Agrees l c) (service : String) : NonNeg (clockOf l service) := by
  intro name
  rw [h service name]
  exact Int.natCast_nonneg _

theorem lookup_getD_insert (clocks : GoMap String (GoMap String Int)) (s : String)
    (vc : GoMap String Int) (t : String) :
    ((clocks.insert s vc).lookup t).getD ∅ = if t = s then vc else (clocks.lookup t).getD ∅ := by
  split
  · rename_i h
    subst h
    rw [AList.lookup_insert, Option.getD_some]
  · rename_i h
    rw [AList.lookup_insert_ne h]

theorem clockOf_emit (typ : String) {service : String} (fields : GoMap String String)
    (hs : service ≠ "") (t : String) :
    clockOf (l.emit typ service fields) t =
      if t = service then l.tick service else clockOf l t := by
  rw [clockOf, EventLog.emit, if_neg hs, lookup_getD_insert]
  rfl

theorem component_tick (service name : String) :
    component (l.tick service) name =
      if name = service then component (clockOf l service) service + 1
      else component (clockOf l service) name :=
  component_insert _ _ _ _

theorem component_mergeClock (h : ∀ s, NonNeg (clockOf l s)) (localName remote t name : String) :
    component (clockOf (l.mergeClock localName remote) t) name =
      if t = localName then
        max (component (clockOf l localName) name) (component (clockOf l remote) name)
      else component (clockOf l t) name := by
  cases hr : l.clocks.lookup remote with
  | none =>
    have heq : l.mergeClock localName remote =
        { l with clocks := l.clocks.insert localName (clockOf l localName) } := by
      rw [EventLog.mergeClock, hr]
      rfl
    have hz : component (clockOf l remote) name = 0 := by
      rw [clockOf, hr, Option.getD_none, component_empty]
    rw [heq, clockOf, lookup_getD_insert, hz, max_eq_left (h localName name)]
    split <;> rfl
  | some theirs =>
    have heq : l.mergeClock localName remote =
        { l with clocks := l.clocks.insert localName (theirs.entries.foldl
            (fun vc kv => if component vc kv.1 < kv.2 then vc.insert kv.1 kv.2 else vc)
            (clockOf l localName)) } := by
      rw [EventLog.mergeClock, hr]
      rfl
    have ht : component (clockOf l remote) name = (theirs.entries.dlookup name).getD 0 := by
      rw [clockOf, hr, Option.getD_some]
      rfl
    rw [heq, clockOf, lookup_getD_insert, ht]
    split
    · exact component_merged _ theirs.nodupKeys _ (h localName) name
    · rfl

theorem agrees_step (h : Agrees l c) (op : Op) :
    Agrees (applyOp l op) (vclock.act c (actOf op)) := by
  intro t name
  cases op with
  | emit typ service fields =>
    rw [applyOp, actOf]
    by_cases hs : service = ""
    · rw [if_pos hs, clockOf, EventLog.emit, if_pos hs]
      exact h t name
    · rw [if_neg hs, clockOf_emit typ fields hs]
      by_cases ht : t = service
      · subst ht
        rw [if_pos rfl, component_tick]
        by_cases hn : name = t
        · subst hn
          rw [if_pos rfl, vclock.tick_self, h, Nat.cast_add, Nat.cast_one]
        · rw [if_neg hn, vclock.tick_other _ fun hand => hn hand.2, h]
      · rw [if_neg ht, vclock.tick_other _ fun hand => ht hand.1, h]
  | mergeClock localName remote =>
    rw [applyOp, actOf, component_mergeClock h.nonNeg]
    by_cases ht : t = localName
    · subst ht
      rw [if_pos rfl, vclock.merge_target, h, h, Nat.cast_max]
    · rw [if_neg ht, vclock.merge_other _ ht, h]

theorem agrees_foldl (ops : List Op) (h : Agrees l c) :
    Agrees (ops.foldl applyOp l) ((ops.map actOf).foldl vclock.act c) := by
  induction ops generalizing l c with
  | nil => exact h
  | cons op ops ih => exact ih (agrees_step h op)

theorem agrees_take (ops : List Op) (k : Nat) :
    Agrees (logAfter (ops.take k)) (vclock.clockAt (ops.map actOf) k) := by
  rw [vclock.clockAt, ← List.map_take]
  exact agrees_foldl _ fun _ _ => rfl

/-! ## Recorded events -/

theorem logAfter_take_succ {op : Op} (h : ops[k]? = some op) :
    logAfter (ops.take (k + 1)) = applyOp (logAfter (ops.take k)) op := by
  rw [logAfter, logAfter, List.take_add_one, h, Option.toList_some, List.foldl_append]
  rfl

theorem logAfter_take_end (h : ops[k]? = none) :
    logAfter (ops.take (k + 1)) = logAfter (ops.take k) := by
  rw [List.take_add_one, h, Option.toList_none, List.append_nil]

theorem recordedBy_some (h : recordedBy ops i = some a) :
    ∃ typ fields, ops[i]? = some (.emit typ a.service fields) ∧
      a = (logAfter (ops.take i)).newEvent typ a.service fields := by
  unfold recordedBy at h
  split at h
  · rename_i typ service fields hop
    cases h
    exact ⟨typ, fields, hop, rfl⟩
  · cases h

theorem recordedBy_emit {typ service : String} {fields : GoMap String String}
    (h : ops[i]? = some (.emit typ service fields)) :
    recordedBy ops i = some ((logAfter (ops.take i)).newEvent typ service fields) := by
  rw [recordedBy, h]

theorem mem_events_take (ops : List Op) (k : Nat) :
    a ∈ (logAfter (ops.take k)).events ↔ ∃ i < k, recordedBy ops i = some a := by
  induction k with
  | zero =>
    constructor
    · intro h
      cases h
    · rintro ⟨i, hi, -⟩
      exact absurd hi (Nat.not_lt_zero i)
  | succ k ih =>
    have hs : (∃ i < k + 1, recordedBy ops i = some a) ↔
        (∃ i < k, recordedBy ops i = some a) ∨ recordedBy ops k = some a := by
      constructor
      · rintro ⟨i, hi, h⟩
        rcases Nat.lt_succ_iff_lt_or_eq.mp hi with hlt | rfl
        · exact Or.inl ⟨i, hlt, h⟩
        · exact Or.inr h
      · rintro (⟨i, hi, h⟩ | h)
        · exact ⟨i, Nat.lt_succ_of_lt hi, h⟩
        · exact ⟨k, Nat.lt_succ_self k, h⟩
    rw [hs, ← ih]
    cases hop : ops[k]? with
    | none => simp [logAfter_take_end hop, recordedBy, hop]
    | some op =>
      rw [logAfter_take_succ hop]
      cases op with
      | emit typ service fields =>
        rw [recordedBy_emit hop, applyOp, emit_events, List.mem_append, List.mem_singleton,
          Option.some.injEq, eq_comm (b := a)]
      | mergeClock localName remote => simp [applyOp, recordedBy, hop]

theorem mem_events_iff : a ∈ (logAfter ops).events ↔ ∃ i, recordedBy ops i = some a := by
  have h := mem_events_take (a := a) ops ops.length
  rw [List.take_length] at h
  rw [h]
  constructor
  · rintro ⟨i, -, hi⟩
    exact ⟨i, hi⟩
  · rintro ⟨i, hi⟩
    obtain ⟨typ, fields, hop, -⟩ := recordedBy_some hi
    exact ⟨i, (List.getElem?_eq_some_iff.mp hop).1, hi⟩

theorem seq_step (l : EventLog) (op : Op) : l.seq ≤ (applyOp l op).seq := by
  cases op with
  | emit typ service fields =>
    have h : (l.emit typ service fields).seq = l.seq + 1 := rfl
    rw [applyOp, h]
    omega
  | mergeClock localName remote =>
    rw [applyOp, EventLog.mergeClock]
    dsimp only
    split <;> exact le_refl _

theorem seq_mono (ops : List Op) (h : i ≤ j) :
    (logAfter (ops.take i)).seq ≤ (logAfter (ops.take j)).seq := by
  induction h with
  | refl => exact le_refl _
  | @step j _ ih =>
    refine le_trans ih ?_
    cases hop : ops[j]? with
    | none => rw [logAfter_take_end hop]
    | some op =>
      rw [logAfter_take_succ hop]
      exact seq_step _ op

theorem seq_lt_of_lt (ha : recordedBy ops i = some a) (hb : recordedBy ops j = some b)
    (h : i < j) : a.seq < b.seq := by
  obtain ⟨typ, fields, hop, ha'⟩ := recordedBy_some ha
  obtain ⟨typ', fields', -, hb'⟩ := recordedBy_some hb
  have hseq : a.seq = (logAfter (ops.take (i + 1))).seq := by
    rw [logAfter_take_succ hop, ha']
    rfl
  have hm : (logAfter (ops.take (i + 1))).seq ≤ (logAfter (ops.take j)).seq :=
    seq_mono ops h
  have hl : b.seq = (logAfter (ops.take j)).seq + 1 := by
    rw [hb']
    rfl
  omega

theorem position_unique (ha : recordedBy ops i = some a) (hb : recordedBy ops j = some a) :
    i = j := by
  rcases Nat.lt_trichotomy i j with hij | rfl | hji
  · exact absurd (seq_lt_of_lt ha hb hij) (lt_irrefl _)
  · rfl
  · exact absurd (seq_lt_of_lt hb ha hji) (lt_irrefl _)

theorem seq_lt_iff (ha : recordedBy ops i = some a) (hb : recordedBy ops j = some b) :
    a.seq < b.seq ↔ i < j := by
  refine ⟨fun h => ?_, seq_lt_of_lt ha hb⟩
  rcases Nat.lt_trichotomy i j with hij | rfl | hji
  · exact hij
  · rw [ha] at hb
    cases hb
    exact absurd h (lt_irrefl _)
  · exact absurd (lt_trans h (seq_lt_of_lt hb ha hji)) (lt_irrefl _)

theorem recorded_clock (ha : recordedBy ops i = some a) (hs : a.service ≠ "") :
    (ops.map actOf)[i]? = some (.tick a.service) ∧
      ∀ name, component a.vectorClock name =
        (vclock.clockAt (ops.map actOf) (i + 1) a.service name : Int) := by
  obtain ⟨typ, fields, hop, ha'⟩ := recordedBy_some ha
  refine ⟨by rw [List.getElem?_map, hop, Option.map_some, actOf, if_neg hs], fun name => ?_⟩
  have hc : a.vectorClock = clockOf (logAfter (ops.take (i + 1))) a.service := by
    rw [logAfter_take_succ hop, applyOp, clockOf_emit typ fields hs, if_pos rfl]
    calc a.vectorClock
        = ((logAfter (ops.take i)).newEvent typ a.service fields).vectorClock := by rw [← ha']
      _ = (logAfter (ops.take i)).tick a.service := if_neg hs
  rw [hc]
  exact agrees_take ops (i + 1) a.service name

theorem recorded_clock_bare (ha : recordedBy ops i = some a) (hs : a.service = "") :
    a.vectorClock = ∅ := by
  obtain ⟨typ, fields, -, ha'⟩ := recordedBy_some ha
  calc a.vectorClock
      = ((logAfter (ops.take i)).newEvent typ a.service fields).vectorClock := by rw [← ha']
    _ = ∅ := if_pos hs

theorem recorded_nonNeg (ha : recordedBy ops i = some a) : NonNeg a.vectorClock := by
  intro name
  by_cases hs : a.service = ""
  · rw [recorded_clock_bare ha hs, component_empty]
  · rw [(recorded_clock ha hs).2 name]
    exact Int.natCast_nonneg _

theorem recorded_own_pos (ha : recordedBy ops i = some a) (hs : a.service ≠ "") :
    0 < component a.vectorClock a.service := by
  obtain ⟨hi, hc⟩ := recorded_clock ha hs
  rw [hc, vclock.clockAt_succ hi, vclock.tick_self]
  exact Int.natCast_pos.mpr (Nat.succ_pos _)

end simulation

/-! ## Causality -/

section causes

variable {ops : List Op} {i j : Nat} {a b : Event}

theorem happensBefore_iff_causes (ha : recordedBy ops i = some a) (hb : recordedBy ops j = some b)
    (hsa : a.service ≠ "") (hsb : b.service ≠ "") :
    happensBefore a b = true ↔ vclock.Causes (ops.map actOf) i j := by
  obtain ⟨hi, hca⟩ := recorded_clock ha hsa
  obtain ⟨hj, hcb⟩ := recorded_clock hb hsb
  rw [happensBefore, vcHappensBefore_iff (recorded_nonNeg ha),
    ← vclock.clock_lt_iff_causes hi hj]
  simp only [hca, hcb, Nat.cast_le, Nat.cast_lt]

theorem bare_happensBefore (ha : recordedBy ops i = some a) (hb : recordedBy ops j = some b)
    (hsa : a.service = "") (hsb : b.service ≠ "") : happensBefore a b = true := by
  rw [happensBefore, vcHappensBefore_iff (recorded_nonNeg ha), recorded_clock_bare ha hsa]
  exact ⟨recorded_nonNeg hb, b.service, recorded_own_pos hb hsb⟩

theorem not_happensBefore_bare (ha : recordedBy ops i = some a) (hb : recordedBy ops j = some b)
    (hsb : b.service = "") : ¬ happensBefore a b = true := by
  rw [happensBefore, vcHappensBefore_iff (recorded_nonNeg ha), recorded_clock_bare hb hsb]
  rintro ⟨-, name, hlt⟩
  exact absurd (recorded_nonNeg ha name) (not_le.mpr hlt)

end causes

/-- The vector clocks characterise causality, over every sequence of operations. -/
theorem clocks_characterise_causality (ops : List Op) (a b : Event)
    (ha : a ∈ (logAfter ops).events) (hb : b ∈ (logAfter ops).events)
    (hsa : a.service ≠ "") (hsb : b.service ≠ "") :
    happensBefore a b = true ↔ a.seq < b.seq ∧ Chain ops a b := by
  obtain ⟨i, hi⟩ := mem_events_iff.mp ha
  obtain ⟨j, hj⟩ := mem_events_iff.mp hb
  rw [happensBefore_iff_causes hi hj hsa hsb]
  constructor
  · intro hc
    exact ⟨(seq_lt_iff hi hj).mpr (vclock.causes_lt hc), i, j, hi, hj, hc⟩
  · rintro ⟨-, i', j', hi', hj', hc⟩
    rwa [position_unique hi hi', position_unique hj hj']

/-! ## A merge hands on what another merge brought -/

/-- A link of two events by one merge alone, or within one service. -/
def DirectLink (ops : List Op) (i j : Nat) : Prop :=
  i < j ∧ ∃ p q, (ops.map actOf)[i]? = some (.tick p) ∧ (ops.map actOf)[j]? = some (.tick q) ∧
    (p = q ∨ ∃ m, i < m ∧ m < j ∧ (ops.map actOf)[m]? = some (.merge q p))

/-- A chain in which every merge links an event of the one service to an event of
the other. -/
def DirectChain (ops : List Op) (a b : Event) : Prop :=
  ∃ i j, recordedBy ops i = some a ∧ recordedBy ops j = some b ∧
    Relation.TransGen (DirectLink ops) i j

def relayed : List Op :=
  [.emit "step_send" "test" ∅, .mergeClock "api" "test", .mergeClock "db" "api",
   .emit "syscall" "db" ∅]

def sent : Event := newEventLog.newEvent "step_send" "test" ∅

def received : Event := (logAfter (relayed.take 3)).newEvent "syscall" "db" ∅

theorem sent_causes_received :
    sent ∈ (logAfter relayed).events ∧ received ∈ (logAfter relayed).events ∧
      sent.seq < received.seq ∧ Chain relayed sent received :=
  have hs : sent ∈ (logAfter relayed).events := mem_events_iff.mpr ⟨0, rfl⟩
  have hr : received ∈ (logAfter relayed).events := mem_events_iff.mpr ⟨3, rfl⟩
  ⟨hs, hr, (clocks_characterise_causality relayed sent received hs hr (by decide) (by decide)).mp
    (by decide)⟩

theorem relayed_acts : relayed.map actOf =
    [.tick "test", .merge "api" "test", .merge "db" "api", .tick "db"] := by decide

theorem relayed_tick {i : Nat} {p : String} (h : (relayed.map actOf)[i]? = some (.tick p)) :
    i = 0 ∧ p = "test" ∨ i = 3 ∧ p = "db" := by
  rw [relayed_acts] at h
  match i with
  | 0 => exact Or.inl ⟨rfl, by simpa using h.symm⟩
  | 1 => simp at h
  | 2 => simp at h
  | 3 => exact Or.inr ⟨rfl, by simpa using h.symm⟩
  | i + 4 => simp at h

theorem relayed_no_directLink {i j : Nat} : ¬ DirectLink relayed i j := by
  rintro ⟨hij, p, q, hi, hj, hpq⟩
  rcases relayed_tick hi with ⟨rfl, rfl⟩ | ⟨rfl, rfl⟩
  · rcases relayed_tick hj with ⟨rfl, rfl⟩ | ⟨rfl, rfl⟩
    · omega
    · rcases hpq with heq | ⟨m, hlo, hhi, hm⟩
      · exact absurd heq (by decide)
      · have hc : m = 1 ∨ m = 2 := by omega
        rw [relayed_acts] at hm
        rcases hc with rfl | rfl
        · simp at hm
        · simp at hm
  · rcases relayed_tick hj with ⟨rfl, rfl⟩ | ⟨rfl, rfl⟩
    · omega
    · omega

/-- The clocks see the relayed call, though no event of api stands between. -/
theorem relayed_call_has_no_direct_chain :
    sent ∈ (logAfter relayed).events ∧ received ∈ (logAfter relayed).events ∧
      sent.service ≠ "" ∧ received.service ≠ "" ∧
      happensBefore sent received = true ∧ ¬ DirectChain relayed sent received := by
  refine ⟨mem_events_iff.mpr ⟨0, rfl⟩, mem_events_iff.mpr ⟨3, rfl⟩, by decide, by decide,
    by decide, ?_⟩
  rintro ⟨i, j, -, -, hc⟩
  obtain ⟨k, -, hl⟩ := Relation.TransGen.tail'_iff.mp hc
  exact relayed_no_directLink hl

/-! ## Events without a service -/

/-- Operation `i` emits an event of a service. -/
def EmitsNamed (ops : List Op) (i : Nat) : Prop :=
  ∃ typ service fields, ops[i]? = some (.emit typ service fields) ∧ service ≠ ""

/-- Operation `i` emits an event without a service. -/
def EmitsBare (ops : List Op) (i : Nat) : Prop :=
  ∃ typ fields, ops[i]? = some (.emit typ "" fields)

/-- Causality runs forward in the log exactly when no event without a service was
recorded after an event of a service. -/
theorem causality_runs_forward_iff (ops : List Op) :
    (∀ a ∈ (logAfter ops).events, ∀ b ∈ (logAfter ops).events,
      happensBefore a b = true → a.seq < b.seq) ↔
    ¬ ∃ i j, i < j ∧ EmitsNamed ops i ∧ EmitsBare ops j := by
  constructor
  · rintro hf ⟨i, j, hij, ⟨typ, service, fields, hi, hs⟩, typ', fields', hj⟩
    have hb := recordedBy_emit hi
    have ha := recordedBy_emit hj
    have hlt := hf _ (mem_events_iff.mpr ⟨j, ha⟩) _ (mem_events_iff.mpr ⟨i, hb⟩)
      (bare_happensBefore ha hb rfl hs)
    exact absurd (lt_trans hlt (seq_lt_of_lt hb ha hij)) (lt_irrefl _)
  · intro hn a ha b hb hab
    obtain ⟨i, hi⟩ := mem_events_iff.mp ha
    obtain ⟨j, hj⟩ := mem_events_iff.mp hb
    by_cases hsb : b.service = ""
    · exact absurd hab (not_happensBefore_bare hi hj hsb)
    by_cases hsa : a.service = ""
    · -- the bare event stands first, as none stands after a named one
      rw [seq_lt_iff hi hj]
      obtain ⟨typ, fields, hopa, -⟩ := recordedBy_some hi
      obtain ⟨typ', fields', hopb, -⟩ := recordedBy_some hj
      rw [hsa] at hopa
      have hnot : ¬ j < i := fun hji =>
        hn ⟨j, i, hji, ⟨typ', b.service, fields', hopb, hsb⟩, typ, fields, hopa⟩
      have hne : i ≠ j := by
        rintro rfl
        rw [hi] at hj
        cases hj
        exact hsb hsa
      omega
    · rw [seq_lt_iff hi hj]
      exact vclock.causes_lt ((happensBefore_iff_causes hi hj hsa hsb).mp hab)

def bareLast : List Op := [.emit "syscall" "db" ∅, .emit "packet" "" ∅]

theorem later_event_happens_before_earlier_one :
    ∃ a ∈ (logAfter bareLast).events, ∃ b ∈ (logAfter bareLast).events,
      happensBefore a b = true ∧ b.seq < a.seq :=
  ⟨(logAfter (bareLast.take 1)).newEvent "packet" "" ∅, mem_events_iff.mpr ⟨1, rfl⟩,
    newEventLog.newEvent "syscall" "db" ∅, mem_events_iff.mpr ⟨0, rfl⟩, by decide,
    by decide⟩

end faultbox.causality
