-- The assertions and the query over the trace of a test (internal/star/builtins.go):
-- `assert_eventually`, `assert_never` and `events`. They filter by keyword and by
-- predicate, each in its own way, and agree only on logs where the events that the
-- assertions look at and the events that the query looks at say the same.
import Faultbox.EventLog

open goval faultbox.event_log

namespace faultbox.event_queries

/-! ## Keyword arguments -/

/-- The answer of a `where=` callable to an event, or the error that it raised. -/
abbrev Predicate : Type := Event → Except String Bool

/-- A value of a keyword argument, by what the builtins ask of it. -/
inductive KwargVal where
  | str (s : String)
  | callable (f : Predicate)
  | other

/-- `starlark.AsString`; what is no string reads as the empty one. -/
def KwargVal.asString : KwargVal → String
  | .str s => s
  | _ => ""

structure EventFilter where
  key : String
  value : String

/-- `extractWhere`: a `where=` that is no callable is dropped. -/
def extractWhere : List (String × KwargVal) → Option Predicate × List (String × KwargVal)
  | [] => (none, [])
  | (key, val) :: kwargs =>
    let (whereFn, rest) := extractWhere kwargs
    if key = "where" then
      match whereFn, val with
      | none, .callable f => (some f, rest)
      | _, _ => (whereFn, rest)
    else (whereFn, (key, val) :: rest)

def extractEventFilters (kwargs : List (String × KwargVal)) : List EventFilter :=
  kwargs.map fun kv => ⟨kv.1, kv.2.asString⟩

/-! ## Filters

`filepathMatch` is `filepath.Match` of the standard library: a pattern and a
name, and `none` for a bad pattern. Nothing below depends on what it answers. -/

section filters

variable (filepathMatch : String → String → Option Bool)

def hasSuffix (s suf : String) : Bool := suf.toList.isSuffixOf s.toList

def trimSuffix (s suf : String) : String :=
  if hasSuffix s suf then String.ofList (s.toList.take (s.length - suf.length)) else s

def matchValue (actual pattern : String) : Bool :=
  if pattern = "" then true
  else if pattern.toList.contains '*' then
    if filepathMatch pattern actual = some true then true
    else if hasSuffix pattern "*" then hasPrefix actual (trimSuffix pattern "*")
    else if hasPrefix pattern "*" then hasSuffix actual (trimPrefix pattern "*")
    else false
  else actual == pattern

def actualOf (ev : Event) (key : String) : String :=
  if key = "service" then ev.service else ev.field key

def matchesFilters (ev : Event) (filters : List EventFilter) : Bool :=
  filters.all fun f => matchValue filepathMatch (actualOf ev f.key) f.value

def formatFilters (filters : List EventFilter) : String :=
  ", ".intercalate (filters.map fun f => f.key ++ "=" ++ quote f.value)

/-! ## The assertions -/

def asserted (typ : String) : Bool :=
  typ == "syscall" || typ == "stdout" || typ == "topic" || typ == "wal"

/-- The loop of both assertions: the first event that satisfies the predicate, or
without one the filters. -/
def firstHit (name : String) (whereFn : Option Predicate) (filters : List EventFilter) :
    List Event → Except String (Option Event)
  | [] => .ok none
  | ev :: evs =>
    if !asserted ev.type then firstHit name whereFn filters evs
    else
      match whereFn with
      | some w =>
        match w ev with
        | .error err => .error (name ++ ": where= callback failed: " ++ err)
        | .ok true => .ok (some ev)
        | .ok false => firstHit name whereFn filters evs
      | none =>
        if matchesFilters filepathMatch ev filters then .ok (some ev)
        else firstHit name whereFn filters evs

/-- `assert_eventually`. -/
def assertEventually (kwargs : List (String × KwargVal)) (log : EventLog) : Except String Unit := do
  let (whereFn, whereKwargs) := extractWhere kwargs
  let filters := extractEventFilters whereKwargs
  match ← firstHit filepathMatch "assert_eventually" whereFn filters log.events with
  | some _ => pure ()
  | none =>
    if whereFn.isSome then throw "assert_eventually: no event matched where= predicate"
    else throw ("assert_eventually: no matching event found (filters: " ++
      formatFilters filters ++ ")")

/-- `assert_never`. -/
def assertNever (kwargs : List (String × KwargVal)) (log : EventLog) : Except String Unit := do
  let (whereFn, whereKwargs) := extractWhere kwargs
  let filters := extractEventFilters whereKwargs
  match ← firstHit filepathMatch "assert_never" whereFn filters log.events with
  | none => pure ()
  | some ev =>
    if whereFn.isSome then
      throw ("assert_never: found matching event #" ++ toString ev.seq ++ " via where= predicate")
    else throw ("assert_never: found matching event #" ++ toString ev.seq ++ " (service=" ++
      ev.service ++ " syscall=" ++ ev.field "syscall" ++ " decision=" ++ ev.field "decision" ++
      " path=" ++ ev.field "path" ++ ")")

/-! ## The query -/

def dictFilterQueryable (typ : String) : Bool :=
  ["syscall", "stdout", "topic", "wal", "client_call", "client_return",
    "contract_violation"].contains typ

/-- The loop of `events`. -/
def selected (whereFn : Option Predicate) (filters : List EventFilter) :
    List Event → Except String (List Event)
  | [] => .ok []
  | ev :: evs =>
    if whereFn.isNone && !dictFilterQueryable ev.type then selected whereFn filters evs
    else if decide (filters.length > 0) && !matchesFilters filepathMatch ev filters then
      selected whereFn filters evs
    else
      match whereFn with
      | some w =>
        match w ev with
        | .error err => .error ("events(): where= callback failed: " ++ err)
        | .ok false => selected whereFn filters evs
        | .ok true => (selected whereFn filters evs).map (ev :: ·)
      | none => (selected whereFn filters evs).map (ev :: ·)

/-- `events`. -/
def events (kwargs : List (String × KwargVal)) (log : EventLog) : Except String (List Event) :=
  selected filepathMatch (extractWhere kwargs).1 (extractEventFilters (extractWhere kwargs).2)
    log.events

/-! ## What the two sides look at -/

def judge (whereFn : Option Predicate) (filters : List EventFilter) : Predicate :=
  match whereFn with
  | some w => w
  | none => fun ev => .ok (matchesFilters filepathMatch ev filters)

def queried (whereFn : Option Predicate) (filters : List EventFilter) (evs : List Event) :
    List Event :=
  evs.filter fun ev => (whereFn.isSome || dictFilterQueryable ev.type) &&
    matchesFilters filepathMatch ev filters

end filters

def looked (evs : List Event) : List Event := evs.filter fun ev => asserted ev.type

/-- The predicate says no to every event. -/
def Quiet (w : Predicate) (evs : List Event) : Prop := ∀ ev ∈ evs, w ev = .ok false

/-- The predicate raises on no event. -/
def Answers (w : Predicate) (evs : List Event) : Prop := ∀ ev ∈ evs, ∃ b, w ev = .ok b

/-- The predicate says yes to an event, and no to all before it. -/
def FirstTrue (w : Predicate) (evs : List Event) : Prop :=
  ∃ pre ev post, evs = pre ++ ev :: post ∧ Quiet w pre ∧ w ev = .ok true

section loops

variable {filepathMatch : String → String → Option Bool} {w : Predicate} {ev : Event}
variable {evs : List Event} {whereFn : Option Predicate}
variable {filters : List EventFilter}

theorem quiet_cons : Quiet w (ev :: evs) ↔ w ev = .ok false ∧ Quiet w evs :=
  List.forall_mem_cons

theorem answers_cons : Answers w (ev :: evs) ↔ (∃ b, w ev = .ok b) ∧ Answers w evs :=
  List.forall_mem_cons

theorem firstTrue_cons :
    FirstTrue w (ev :: evs) ↔ w ev = .ok true ∨ (w ev = .ok false ∧ FirstTrue w evs) := by
  constructor
  · rintro ⟨pre, ev', post, heq, hpre, ht⟩
    cases pre with
    | nil =>
      cases heq
      exact Or.inl ht
    | cons ev₀ pre =>
      cases heq
      obtain ⟨hf, hpre⟩ := quiet_cons.mp hpre
      exact Or.inr ⟨hf, pre, ev', post, rfl, hpre, ht⟩
  · rintro (ht | ⟨hfa, pre, ev', post, rfl, hpre, ht⟩)
    · exact ⟨[], ev, evs, rfl, List.forall_mem_nil _, ht⟩
    · exact ⟨ev :: pre, ev', post, rfl, quiet_cons.mpr ⟨hfa, hpre⟩, ht⟩

theorem not_firstTrue_nil : ¬ FirstTrue w [] := by
  rintro ⟨pre, ev, post, heq, -⟩
  cases pre <;> cases heq

theorem firstHit_cons (name : String) :
    firstHit filepathMatch name whereFn filters (ev :: evs) =
      if asserted ev.type then
        match judge filepathMatch whereFn filters ev with
        | .error err => .error (name ++ ": where= callback failed: " ++ err)
        | .ok true => .ok (some ev)
        | .ok false => firstHit filepathMatch name whereFn filters evs
      else firstHit filepathMatch name whereFn filters evs := by
  cases whereFn with
  | some w => cases ha : asserted ev.type <;> simp [firstHit, ha, judge]
  | none =>
    cases ha : asserted ev.type with
    | false => simp [firstHit, ha]
    | true => cases hm : matchesFilters filepathMatch ev filters <;> simp [firstHit, ha, judge, hm]

theorem looked_cons :
    looked (ev :: evs) = if asserted ev.type then ev :: looked evs else looked evs := by
  rw [looked, List.filter_cons]
  rfl

theorem firstHit_none_iff (name : String) :
    firstHit filepathMatch name whereFn filters evs = .ok none ↔
      Quiet (judge filepathMatch whereFn filters) (looked evs) := by
  induction evs with
  | nil => exact ⟨fun _ => List.forall_mem_nil _, fun _ => rfl⟩
  | cons ev evs ih =>
    rw [firstHit_cons, looked_cons]
    split
    · rw [quiet_cons]
      split
      · rename_i herr
        simp [herr]
      · rename_i ht
        simp [ht]
      · rename_i hf
        simp [hf, ih]
    · exact ih

theorem firstHit_some_iff (name : String) :
    (∃ ev, firstHit filepathMatch name whereFn filters evs = .ok (some ev)) ↔
      FirstTrue (judge filepathMatch whereFn filters) (looked evs) := by
  induction evs with
  | nil =>
    refine ⟨?_, fun h => absurd h not_firstTrue_nil⟩
    rintro ⟨ev, hev⟩
    cases hev
  | cons ev evs ih =>
    rw [firstHit_cons, looked_cons]
    split
    · rw [firstTrue_cons]
      split
      · rename_i herr
        simp [herr]
      · rename_i ht
        simp [ht]
      · rename_i hf
        simp [hf, ih]
    · exact ih

/-- One turn of the loop of the query. -/
theorem selected_cons :
    selected filepathMatch whereFn filters (ev :: evs) =
      if (whereFn.isSome || dictFilterQueryable ev.type) &&
          matchesFilters filepathMatch ev filters then
        match judge filepathMatch whereFn filters ev with
        | .error err => .error ("events(): where= callback failed: " ++ err)
        | .ok true => (selected filepathMatch whereFn filters evs).map (ev :: ·)
        | .ok false => selected filepathMatch whereFn filters evs
      else selected filepathMatch whereFn filters evs := by
  have he : matchesFilters filepathMatch ev filters = false → filters.length > 0 := by
    intro h
    cases filters with
    | nil => cases h
    | cons f fs => exact Nat.succ_pos _
  cases whereFn with
  | some w =>
    cases hm : matchesFilters filepathMatch ev filters with
    | false => simp [selected, hm, he hm]
    | true =>
      simp only [selected, hm, judge, Option.isNone_some, Option.isSome_some, Bool.false_and,
        Bool.not_true, Bool.and_false, Bool.true_or, Bool.true_and, if_true, Bool.false_eq_true,
        if_false]
      cases w ev with
      | error err => rfl
      | ok b => cases b <;> rfl
  | none =>
    cases hq : dictFilterQueryable ev.type with
    | false => simp [selected, hq]
    | true =>
      cases hm : matchesFilters filepathMatch ev filters with
      | false => simp [selected, hq, hm, he hm]
      | true => simp [selected, hq, hm, judge]

theorem queried_cons :
    queried filepathMatch whereFn filters (ev :: evs) =
      if (whereFn.isSome || dictFilterQueryable ev.type) &&
          matchesFilters filepathMatch ev filters then
        ev :: queried filepathMatch whereFn filters evs
      else queried filepathMatch whereFn filters evs := by
  rw [queried, List.filter_cons]
  rfl

theorem selected_nil_iff :
    selected filepathMatch whereFn filters evs = .ok [] ↔
      Quiet (judge filepathMatch whereFn filters)
        (queried filepathMatch whereFn filters evs) := by
  induction evs with
  | nil => exact ⟨fun _ => List.forall_mem_nil _, fun _ => rfl⟩
  | cons ev evs ih =>
    rw [selected_cons, queried_cons]
    split
    · rw [quiet_cons]
      split
      · rename_i herr
        simp [herr]
      · rename_i ht
        cases selected filepathMatch whereFn filters evs <;> simp [ht, Except.map]
      · rename_i hf
        simp [hf, ih]
    · exact ih

theorem selected_ok_iff :
    (∃ l, selected filepathMatch whereFn filters evs = .ok l) ↔
      Answers (judge filepathMatch whereFn filters)
        (queried filepathMatch whereFn filters evs) := by
  induction evs with
  | nil => exact ⟨fun _ => List.forall_mem_nil _, fun _ => ⟨[], rfl⟩⟩
  | cons ev evs ih =>
    rw [selected_cons, queried_cons]
    split
    · rw [answers_cons, ← ih]
      split
      · rename_i herr
        simp [herr]
      · rename_i ht
        cases selected filepathMatch whereFn filters evs <;> simp [ht, Except.map]
      · rename_i hf
        simp [hf]
    · exact ih

theorem selected_nonempty_iff :
    (∃ l, selected filepathMatch whereFn filters evs = .ok l ∧ l ≠ []) ↔
      Answers (judge filepathMatch whereFn filters)
          (queried filepathMatch whereFn filters evs) ∧
        ¬ Quiet (judge filepathMatch whereFn filters)
          (queried filepathMatch whereFn filters evs) := by
  rw [← selected_ok_iff, ← selected_nil_iff]
  constructor
  · rintro ⟨l, hl, hne⟩
    refine ⟨⟨l, hl⟩, fun hnil => hne ?_⟩
    rw [hl] at hnil
    exact Except.ok.inj hnil
  · rintro ⟨⟨l, hl⟩, hne⟩
    refine ⟨l, hl, ?_⟩
    rintro rfl
    exact hne hl

theorem firstTrue_of_answers (ha : Answers w evs) (hq : ¬ Quiet w evs) : FirstTrue w evs := by
  induction evs with
  | nil => exact absurd (List.forall_mem_nil _) hq
  | cons ev evs ih =>
    obtain ⟨⟨b, hb⟩, ha⟩ := answers_cons.mp ha
    rw [firstTrue_cons]
    cases b with
    | true => exact Or.inl hb
    | false => exact Or.inr ⟨hb, ih ha fun h => hq (quiet_cons.mpr ⟨hb, h⟩)⟩

theorem not_quiet_of_firstTrue (h : FirstTrue w evs) : ¬ Quiet w evs := by
  obtain ⟨pre, ev, post, rfl, -, ht⟩ := h
  intro hq
  have hf := hq ev (List.mem_append_right pre List.mem_cons_self)
  rw [ht] at hf
  cases hf

end loops

/-! ## Agreement -/

section agreement

variable (filepathMatch : String → String → Option Bool) (kwargs : List (String × KwargVal))
variable (log : EventLog)

/-- `assert_eventually` passes exactly when the query finds something, and
`assert_never` exactly when it finds nothing. -/
def Agree : Prop :=
  (assertEventually filepathMatch kwargs log = .ok () ↔
      ∃ l, events filepathMatch kwargs log = .ok l ∧ l ≠ []) ∧
    (assertNever filepathMatch kwargs log = .ok () ↔ events filepathMatch kwargs log = .ok [])

/-- Without a predicate: where an event of a client passes the filters, so does an
event that the assertions look at. With one: it says no to all events that the assertions look at
exactly when it says no to all events that pass the filters; and otherwise the first of the former
to which it does not say no gets a yes, exactly when it raises on none of the latter. -/
def Consistent : Prop :=
  let filters := extractEventFilters (extractWhere kwargs).2
  let passed := log.events.filter (matchesFilters filepathMatch · filters)
  match (extractWhere kwargs).1 with
  | none =>
    (∃ ev ∈ passed, ev.type ∈ ["client_call", "client_return", "contract_violation"]) →
      ∃ ev ∈ passed, asserted ev.type = true
  | some w =>
    (Quiet w (looked log.events) ↔ Quiet w passed) ∧
      (¬ Quiet w passed → (FirstTrue w (looked log.events) ↔ Answers w passed))

variable {filepathMatch kwargs log}

theorem assertEventually_ok_iff :
    assertEventually filepathMatch kwargs log = .ok () ↔
      FirstTrue (judge filepathMatch (extractWhere kwargs).1
        (extractEventFilters (extractWhere kwargs).2)) (looked log.events) := by
  rw [← firstHit_some_iff "assert_eventually", assertEventually]
  cases hf : firstHit filepathMatch "assert_eventually" (extractWhere kwargs).1
      (extractEventFilters (extractWhere kwargs).2) log.events with
  | error err =>
    refine ⟨fun h => ?_, fun ⟨ev, hev⟩ => by cases hev⟩
    simp only [hf] at h
    cases h
  | ok hit =>
    cases hit with
    | some ev =>
      refine ⟨fun _ => ⟨ev, rfl⟩, fun _ => ?_⟩
      simp only [hf]
      rfl
    | none =>
      refine ⟨fun h => ?_, fun ⟨ev, hev⟩ => by cases hev⟩
      simp only [hf] at h
      cases hw : (extractWhere kwargs).1.isSome <;> simp only [hw] at h <;> cases h

theorem assertNever_ok_iff :
    assertNever filepathMatch kwargs log = .ok () ↔
      Quiet (judge filepathMatch (extractWhere kwargs).1
        (extractEventFilters (extractWhere kwargs).2)) (looked log.events) := by
  rw [← firstHit_none_iff "assert_never", assertNever]
  cases hf : firstHit filepathMatch "assert_never" (extractWhere kwargs).1
      (extractEventFilters (extractWhere kwargs).2) log.events with
  | error err =>
    refine ⟨fun h => ?_, fun h => by cases h⟩
    simp only [hf] at h
    cases h
  | ok hit =>
    cases hit with
    | none =>
      refine ⟨fun _ => rfl, fun _ => ?_⟩
      simp only [hf]
      rfl
    | some ev =>
      refine ⟨fun h => ?_, fun h => by cases h⟩
      simp only [hf] at h
      cases hw : (extractWhere kwargs).1.isSome <;> simp only [hw] at h <;> cases h

theorem agree_iff_answers :
    Agree filepathMatch kwargs log ↔
      let filters := extractEventFilters (extractWhere kwargs).2
      let w := judge filepathMatch (extractWhere kwargs).1 filters
      let found := queried filepathMatch (extractWhere kwargs).1 filters log.events
      (Quiet w (looked log.events) ↔ Quiet w found) ∧
        (¬ Quiet w found → (FirstTrue w (looked log.events) ↔ Answers w found)) := by
  rw [Agree, assertEventually_ok_iff, assertNever_ok_iff, events, selected_nonempty_iff,
    selected_nil_iff]
  dsimp only
  constructor
  · rintro ⟨hf, hq⟩
    exact ⟨hq, fun hl => hf.trans (and_iff_left hl)⟩
  · rintro ⟨hq, hl⟩
    refine ⟨⟨fun hf => ?_, fun h => (hl h.2).mpr h.1⟩, hq⟩
    have hnot := not_quiet_of_firstTrue hf
    rw [hq] at hnot
    exact ⟨(hl hnot).mp hf, hnot⟩

theorem queryable_iff (typ : String) :
    dictFilterQueryable typ = true ↔
      asserted typ = true ∨ typ ∈ ["client_call", "client_return", "contract_violation"] := by
  simp [dictFilterQueryable, asserted, or_assoc]

theorem answers_filters (filters : List EventFilter) (evs : List Event) :
    Answers (judge filepathMatch none filters) evs := fun _ _ => ⟨_, rfl⟩

theorem quiet_looked_filters (filters : List EventFilter) (evs : List Event) :
    Quiet (judge filepathMatch none filters) (looked evs) ↔
      ¬ ∃ ev ∈ evs.filter (matchesFilters filepathMatch · filters), asserted ev.type = true := by
  simp only [Quiet, judge, looked, List.mem_filter, Except.ok.injEq, not_exists, not_and, and_imp]
  constructor
  · intro h ev hev hm ha
    exact Bool.false_ne_true ((h ev hev ha).symm.trans hm)
  · intro h ev hev ha
    exact Bool.eq_false_iff.mpr fun hm => h ev hev hm ha

theorem quiet_queried_filters (filters : List EventFilter) (evs : List Event) :
    Quiet (judge filepathMatch none filters) (queried filepathMatch none filters evs) ↔
      ¬ ∃ ev ∈ evs.filter (matchesFilters filepathMatch · filters),
        dictFilterQueryable ev.type = true := by
  simp only [Quiet, judge, queried, List.mem_filter, Except.ok.injEq, Option.isSome_none,
    Bool.false_or, Bool.and_eq_true, not_exists, not_and, and_imp]
  constructor
  · intro h ev hev hm hq
    exact Bool.false_ne_true ((h ev hev hq hm).symm.trans hm)
  · intro h ev hev hq hm
    exact absurd hq (h ev hev hm)

end agreement

/-- The assertions and the query agree exactly on the logs that are consistent for
their arguments. -/
theorem assertions_agree_with_query_iff (filepathMatch : String → String → Option Bool)
    (kwargs : List (String × KwargVal)) (log : EventLog) :
    Agree filepathMatch kwargs log ↔ Consistent filepathMatch kwargs log := by
  rw [agree_iff_answers, Consistent]
  cases hw : (extractWhere kwargs).1 with
  | some w =>
    have hp : ∀ filters, queried filepathMatch (some w) filters log.events =
        log.events.filter (matchesFilters filepathMatch · filters) := by
      intro filters
      simp only [queried, Option.isSome_some, Bool.true_or, Bool.true_and]
    simp only [hp, judge]
  | none =>
    dsimp only
    rw [quiet_looked_filters, quiet_queried_filters, not_iff_not]
    constructor
    · rintro ⟨hiff, -⟩ ⟨ev, hev, hc⟩
      exact hiff.mpr ⟨ev, hev, (queryable_iff ev.type).mpr (Or.inr hc)⟩
    · intro hcl
      have hiff : (∃ ev ∈ log.events.filter (matchesFilters filepathMatch ·
            (extractEventFilters (extractWhere kwargs).2)), asserted ev.type = true) ↔
          ∃ ev ∈ log.events.filter (matchesFilters filepathMatch ·
            (extractEventFilters (extractWhere kwargs).2)), dictFilterQueryable ev.type = true := by
        constructor
        · rintro ⟨ev, hev, ha⟩
          exact ⟨ev, hev, (queryable_iff ev.type).mpr (Or.inl ha)⟩
        · rintro ⟨ev, hev, hq⟩
          rcases (queryable_iff ev.type).mp hq with ha | hc
          · exact ⟨ev, hev, ha⟩
          · exact hcl ⟨ev, hev, hc⟩
      refine ⟨hiff, fun hl => ?_⟩
      have hf := firstTrue_of_answers (answers_filters _ (looked log.events))
        (mt (quiet_looked_filters _ _).mp (not_not.mpr (hiff.mpr (not_not.mp hl))))
      exact ⟨fun _ => answers_filters _ _, fun _ => hf⟩

def onePacket : EventLog := newEventLog.emit "packet" "" ∅

/-- `where = lambda e: e.type == "packet"`. -/
def packetEvents : List (String × KwargVal) :=
  [("where", .callable fun ev => .ok (ev.type == "packet"))]

/-- `filepath.Match` on patterns without special characters. -/
def literalMatch (pattern name : String) : Option Bool := some (pattern == name)

/-- The query finds the packet; `assert_eventually` does not, and `assert_never` passes. -/
theorem assertions_do_not_see_the_packet :
    events literalMatch packetEvents onePacket = .ok onePacket.events ∧
      onePacket.events ≠ [] ∧
      assertEventually literalMatch packetEvents onePacket =
        .error "assert_eventually: no event matched where= predicate" ∧
      assertNever literalMatch packetEvents onePacket = .ok () ∧
      ¬ Agree literalMatch packetEvents onePacket := by
  have hq : events literalMatch packetEvents onePacket = .ok onePacket.events := rfl
  have he : assertEventually literalMatch packetEvents onePacket =
      .error "assert_eventually: no event matched where= predicate" := rfl
  have hs : onePacket.events ≠ [] := List.cons_ne_nil _ _
  refine ⟨hq, hs, he, rfl, fun ha => ?_⟩
  have hok := ha.1.mpr ⟨onePacket.events, hq, hs⟩
  rw [he] at hok
  cases hok

end faultbox.event_queries
