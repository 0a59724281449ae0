-- The Kafka barriers (internal/star/kafka_wait.go): wait_ready and wait_committed answer from a
-- snapshot of the event history. The laws: a snapshot without pending text is the current
-- assignment of one group, and wait_committed succeeds only while the position that owned the
-- partition at publish time is the current one. A NUL joins the parts of a key, so both hold
-- for names without one.
import Faultbox.EventLog
import Faultbox.GoText
import Mathlib.Data.Prod.Lex

open goval gopath gotext faultbox.event_log

namespace faultbox.kafka_wait

/-! ## kafkaReadyPositions -/

abbrev Fields : Type := GoMap String String

def field (f : Fields) (key : String) : String := (f.lookup key).getD ""

/-- The error of `strconv.ParseInt` is dropped; the value is that of `Atoi`. -/
def fieldInt (f : Fields) (key : String) : Int := (atoi (bytes (field f key))).1

def assignmentKeys : List String :=
  ["group", "member_id", "epoch", "generation", "assignment", "source_instance"]

def positionKeys : List String := assignmentKeys ++ ["topic", "partition"]

def positionID (f : Fields) : String := "\x00".intercalate (positionKeys.map (field f))

def sameAssignment (a b : Fields) : Bool := assignmentKeys.all fun key => field a key = field b key

/-- A `generation`: the epoch counts before the number. -/
def generationOf (f : Fields) : ℤ ×ₗ ℤ := toLex (fieldInt f "epoch", fieldInt f "generation")

def dated (f : Fields) : Bool := field f "group" ≠ "" && field f "epoch" ≠ ""

def latest (events : List Event) : GoMap String (ℤ ×ₗ ℤ) :=
  storeLargest id ∅ ((events.filter fun e => dated e.fields).map fun e =>
    (field e.fields "group", generationOf e.fields))

def current (events : List Event) (f : Fields) : Bool :=
  (latest events).lookup (field f "group") = some (generationOf f)

def memberKey (f : Fields) : String := field f "group" ++ "\x00" ++ field f "member_id"

def syncs (events : List Event) : GoMap String Fields :=
  storeLargest (fieldInt · "assignment") ∅ ((events.filter fun e =>
    e.type = "mock.kafka.group_sync" && current events e.fields).map fun e =>
      (memberKey e.fields, e.fields))

def synced (events : List Event) (f : Fields) : Bool :=
  match (syncs events).lookup (memberKey f) with
  | none => false
  | some sync => sameAssignment f sync

structure Selector where
  topics : List String
  service : String
  group : String

def Selector.passes (sel : Selector) (f : Fields) : Bool :=
  field f "topic" ∈ sel.topics && (sel.group = "" || field f "group" = sel.group) &&
    (sel.service = "" || field f "source_service" = sel.service)

def selected (events : List Event) (sel : Selector) : List Fields :=
  (events.filter fun e => e.type = "mock.kafka.assign" && current events e.fields &&
    sel.passes e.fields && synced events e.fields).map (·.fields)

def assignments (events : List Event) (sel : Selector) : GoMap String Fields :=
  storeAll ∅ ((selected events sel).map fun f => (positionID f, f))

def groups (events : List Event) (sel : Selector) : List String :=
  ((selected events sel).map (field · "group")).dedup

def ready (events : List Event) : List String :=
  (events.filter fun e => e.type = "mock.kafka.group_ready").map fun e => positionID e.fields

/-- What an entry of `assignments` waits for; a nil `active` is `none`. -/
def pendingOf (events : List Event) (active : Option (Fields → Bool)) (kv : String × Fields) :
    Option String :=
  let place := field kv.2 "topic" ++ "/" ++ field kv.2 "partition"
  if active.any fun act => !act kv.2 then
    some (place ++ ": source process unavailable or ownership unresolved")
  else if kv.1 ∉ ready events then some (place ++ " awaiting acknowledged Fetch")
  else none

/-- `pending`, less the topics that the broker misses. -/
def pending (events : List Event) (sel : Selector) (active : Option (Fields → Bool)) :
    List String :=
  let entries := pairs (assignments events sel)
  entries.filterMap (pendingOf events active) ++
    (sel.topics.filter fun topic => topic ∉ entries.map fun kv => field kv.2 "topic").map
      (· ++ ": no current assignment for selector")

def missing (events : List Event) (sel : Selector) : List String :=
  (events.filter fun e => e.type = "mock.kafka.topic_missing" &&
    field e.fields "topic" ∈ sel.topics).map fun e =>
      field e.fields "topic" ++ ": broker reported missing topic; declare it in topics="

inductive Code where
  | timeout
  | ambiguous
  | unsupported
  | stale
  deriving DecidableEq

structure CodedError where
  code : Code
  text : String

/-- The order in which Go visits the map does not show, since both lists are sorted. -/
def kafkaReadyPositions (events : List Event) (sel : Selector) (active : Option (Fields → Bool)) :
    Except CodedError (List Fields × String) :=
  if 1 < (groups events sel).length then
    .error ⟨.ambiguous, "Kafka selector matches groups " ++
      ", ".intercalate (sortStrings (groups events sel)) ++ "; specify group="⟩
  else if pending events sel active ≠ [] then
    .ok ([], "; ".intercalate (sortStrings (pending events sel active ++ missing events sel)))
  else
    .ok ((((pairs (assignments events sel)).filter fun kv =>
      (pendingOf events active kv).isNone).map Prod.snd).insertionSort
        (positionID · ≤ positionID ·), "")

/-! ## The current assignment -/

/-- The generations that the history holds of a group. -/
def generations (events : List Event) (group : String) : Set (ℤ ×ₗ ℤ) :=
  {g | ∃ e ∈ events, dated e.fields ∧ field e.fields "group" = group ∧ generationOf e.fields = g}

def Current (events : List Event) (f : Fields) : Prop :=
  IsGreatest (generations events (field f "group")) (generationOf f)

theorem current_iff {events : List Event} {f : Fields} :
    current events f = true ↔ Current events f := by
  have hm (g : ℤ ×ₗ ℤ) : g ∈ ((((events.filter fun e => dated e.fields).map fun e =>
      (field e.fields "group", generationOf e.fields)).filter fun kv =>
        kv.1 = field f "group").map Prod.snd) ↔ g ∈ generations events (field f "group") := by
    simp [generations, and_assoc]
  unfold current latest
  rw [decide_eq_true_iff, lookup_storeLargest]
  exact List.maximum_eq_coe_iff.trans (and_congr (hm _) (forall_congr' fun g => by rw [hm]))

instance (events : List Event) (f : Fields) : Decidable (Current events f) :=
  decidable_of_iff _ current_iff

/-- The syncs of the member of `f` in its group's generation. -/
def memberSyncs (events : List Event) (f : Fields) : List Fields :=
  (events.filter fun e => e.type = "mock.kafka.group_sync" ∧ Current events e.fields ∧
    field e.fields "group" = field f "group" ∧
      field e.fields "member_id" = field f "member_id").map (·.fields)

/-- The latest sync is that of the largest assignment, the first of them if there are several. -/
def AgreesWithSync (events : List Event) (f : Fields) : Prop :=
  ∃ sync, (memberSyncs events f).argmax (fieldInt · "assignment") = some sync ∧
    ∀ key ∈ assignmentKeys, field f key = field sync key

def SamePosition (a b : Fields) : Prop := ∀ key ∈ positionKeys, field a key = field b key

structure Snapshot (events : List Event) (sel : Selector) (active : Option (Fields → Bool))
    (positions : List Fields) : Prop where
  one_group : ∃ group, ∀ p ∈ positions, field p "group" = group
  current : ∀ p ∈ positions, Current events p
  assigned : ∀ p ∈ positions, ∃ e ∈ events, e.type = "mock.kafka.assign" ∧ e.fields = p ∧
    AgreesWithSync events p
  ready : ∀ p ∈ positions, ∃ e ∈ events, e.type = "mock.kafka.group_ready" ∧
    SamePosition e.fields p
  active : ∀ p ∈ positions, ∀ act ∈ active, act p = true
  complete : ∀ e ∈ events, e.type = "mock.kafka.assign" → Current events e.fields →
    sel.passes e.fields = true → AgreesWithSync events e.fields →
      ∃ p ∈ positions, SamePosition p e.fields
  covered : ∀ topic ∈ sel.topics, ∃ p ∈ positions, field p "topic" = topic

/-- No part of a key holds the NUL that joins the parts. -/
def Plain (f : Fields) : Prop := ∀ key ∈ positionKeys, '\x00' ∉ (field f key).toList

theorem intercalate_nul_inj {xs ys : List String} (hx : ∀ x ∈ xs, '\x00' ∉ x.toList)
    (hy : ∀ y ∈ ys, '\x00' ∉ y.toList) (hxn : xs ≠ []) (hyn : ys ≠ [])
    (h : "\x00".intercalate xs = "\x00".intercalate ys) : xs = ys := by
  have hl := congrArg (fun s => s.toList.splitOn '\x00') h
  have hs : "\x00".toList = ['\x00'] := rfl
  simp only [String.toList_intercalate, hs] at hl
  rw [List.splitOn_intercalate _ (by simpa using hx) (by simpa using hxn),
    List.splitOn_intercalate _ (by simpa using hy) (by simpa using hyn)] at hl
  exact List.map_injective_iff.mpr (fun _ _ => String.toList_inj.mp) hl

theorem positionID_inj {f g : Fields} (hf : Plain f) (hg : Plain g) :
    positionID f = positionID g ↔ SamePosition f g := by
  unfold positionID SamePosition
  rw [← List.map_inj_left]
  constructor
  · apply intercalate_nul_inj _ _ (by simp [positionKeys]) (by simp [positionKeys])
    · simpa [Plain] using hf
    · simpa [Plain] using hg
  · intro hs
    rw [hs]

theorem memberKey_inj {f g : Fields} (hf : Plain f) (hg : Plain g) :
    memberKey f = memberKey g ↔
      field f "group" = field g "group" ∧ field f "member_id" = field g "member_id" := by
  have hgr : "group" ∈ positionKeys := by decide
  have hme : "member_id" ∈ positionKeys := by decide
  constructor
  · intro hk
    have hi : "\x00".intercalate [field f "group", field f "member_id"] =
        "\x00".intercalate [field g "group", field g "member_id"] := hk
    have hl := intercalate_nul_inj (by simp [hf _ hgr, hf _ hme]) (by simp [hg _ hgr, hg _ hme])
      (List.cons_ne_nil _ _) (List.cons_ne_nil _ _) hi
    simpa using hl
  · rintro ⟨hgr, hme⟩
    unfold memberKey
    rw [hgr, hme]

section plain

variable {events : List Event} {sel : Selector} {active : Option (Fields → Bool)}
  {f : Fields} {positions : List Fields} {why : String}

theorem synced_iff (h : ∀ e ∈ events, Plain e.fields) (hf : Plain f) :
    synced events f = true ↔ AgreesWithSync events f := by
  have hs : (syncs events).lookup (memberKey f) =
      (memberSyncs events f).argmax (fieldInt · "assignment") := by
    unfold syncs memberSyncs
    rw [lookup_storeLargest, List.filter_map, List.map_map, List.filter_filter]
    congr 2
    apply List.filter_congr
    intro e he
    rw [Bool.eq_iff_iff]
    simp [memberKey_inj (h e he) hf, current_iff]
    tauto
  unfold synced AgreesWithSync
  rw [hs]
  cases (memberSyncs events f).argmax (fieldInt · "assignment") with
  | none => simp
  | some sync => simp [sameAssignment]

theorem mem_selected (h : ∀ e ∈ events, Plain e.fields) : f ∈ selected events sel ↔
    ∃ e ∈ events, e.type = "mock.kafka.assign" ∧ Current events e.fields ∧
      sel.passes e.fields = true ∧ AgreesWithSync events e.fields ∧ e.fields = f := by
  unfold selected
  rw [List.mem_map]
  apply exists_congr
  intro e
  by_cases he : e ∈ events
  · simp [he, current_iff, synced_iff h (h e he), and_assoc]
  · simp [he]

theorem lookup_assignments {key : String} (h : (assignments events sel).lookup key = some f) :
    f ∈ selected events sel ∧ key = positionID f := by
  have hk := (AList.lookup_isSome.mp (Option.isSome_of_eq_some h))
  rw [assignments, mem_storeAll] at hk
  obtain ⟨g, hg, hl⟩ := lookup_storeAll_of_mem ∅ (hk.resolve_left (AList.notMem_empty key))
  rw [assignments] at h
  obtain rfl : f = g := Option.some.inj (h.symm.trans hl)
  simp only [List.mem_map, Prod.mk.injEq] at hg
  obtain ⟨f', hf, rfl, rfl⟩ := hg
  exact ⟨hf, rfl⟩

theorem exists_assignment (h : f ∈ selected events sel) :
    ∃ g, (assignments events sel).lookup (positionID f) = some g := by
  obtain ⟨g, -, hl⟩ := lookup_storeAll_of_mem ∅ (show positionID f ∈
    ((selected events sel).map fun f => (positionID f, f)).map Prod.fst by
      simpa using ⟨f, h, rfl⟩)
  exact ⟨g, hl⟩

theorem pendingOf_ne {kv : String × Fields} {text : String}
    (h : pendingOf events active kv = some text) : text ≠ "" := by
  unfold pendingOf at h
  split at h
  · cases h; simp
  · split at h
    · cases h; simp
    · cases h

theorem pending_text_ne : "; ".intercalate (sortStrings (pending events sel active ++
    missing events sel)) = "" → pending events sel active = [] := by
  have hne : ∀ s ∈ pending events sel active ++ missing events sel, s ≠ "" := by
    intro s hs
    simp only [pending, missing, List.mem_append, List.mem_filterMap, List.mem_map] at hs
    obtain (⟨kv, -, hp⟩ | ⟨topic, -, rfl⟩) | ⟨e, -, rfl⟩ := hs
    · exact pendingOf_ne hp
    · simp
    · simp
  intro ht
  have hl := congrArg String.toList ht
  rw [String.toList_intercalate] at hl
  cases hs : sortStrings (pending events sel active ++ missing events sel) with
  | nil =>
    have hp := sortStrings_perm (pending events sel active ++ missing events sel)
    rw [hs] at hp
    exact (List.append_eq_nil_iff.mp hp.symm.eq_nil).1
  | cons a rest =>
    have ha : a ≠ "" := hne a ((sortStrings_perm _).mem_iff.mp (hs ▸ List.mem_cons_self))
    rw [hs] at hl
    cases rest <;> simp_all

theorem pending_eq_nil (h : pending events sel active = []) :
    (∀ kv ∈ pairs (assignments events sel), pendingOf events active kv = none) ∧
      ∀ topic ∈ sel.topics, ∃ kv ∈ pairs (assignments events sel), field kv.2 "topic" = topic := by
  unfold pending at h
  obtain ⟨he, ht⟩ := List.append_eq_nil_iff.mp h
  refine ⟨fun kv hkv => List.filterMap_eq_nil_iff.mp he kv hkv, fun topic htp => ?_⟩
  by_contra hn
  apply List.ne_nil_of_mem (List.mem_map_of_mem (List.mem_filter.mpr ⟨htp, _⟩)) ht
  simpa using hn

/-- What is returned without pending text: an entry of `assignments` each, and all of them. -/
theorem kafkaReadyPositions_ok (h : kafkaReadyPositions events sel active = .ok (positions, why))
    (hw : why = "" ∨ positions ≠ []) :
    (groups events sel).length ≤ 1 ∧ pending events sel active = [] ∧
      ∀ p, p ∈ positions ↔ ∃ key, (key, p) ∈ pairs (assignments events sel) := by
  unfold kafkaReadyPositions at h
  split at h
  · cases h
  · rename_i hg
    split at h
    · rename_i hp
      cases h
      obtain hw | hw := hw
      · exact absurd (pending_text_ne hw) hp
      · exact absurd rfl hw
    · rename_i hp
      rw [not_not] at hp
      cases h
      refine ⟨not_lt.mp hg, hp, fun p => ?_⟩
      rw [List.mem_insertionSort, List.mem_map]
      constructor
      · rintro ⟨kv, hkv, rfl⟩
        exact ⟨kv.1, (List.mem_filter.mp hkv).1⟩
      · rintro ⟨key, hk⟩
        exact ⟨(key, p), List.mem_filter.mpr ⟨hk, by rw [(pending_eq_nil hp).1 _ hk]; rfl⟩, rfl⟩

theorem pendingOf_none {key : String} (h : pendingOf events active (key, f) = none) :
    key ∈ ready events ∧ ∀ act ∈ active, act f = true := by
  unfold pendingOf at h
  split at h
  · cases h
  · rename_i ha
    split at h
    · cases h
    · rename_i hr
      refine ⟨not_not.mp hr, fun act hact => ?_⟩
      obtain rfl : active = some act := hact
      simpa using ha

theorem snapshot_of_ok (hpl : ∀ e ∈ events, Plain e.fields)
    (h : kafkaReadyPositions events sel active = .ok (positions, why))
    (hw : why = "" ∨ positions ≠ []) : Snapshot events sel active positions := by
  obtain ⟨hg, hp, hm⟩ := kafkaReadyPositions_ok h hw
  obtain ⟨hn, ht⟩ := pending_eq_nil hp
  have hsel : ∀ p ∈ positions, p ∈ selected events sel ∧ positionID p ∈ ready events ∧
      ∀ act ∈ active, act p = true := by
    intro p hpp
    obtain ⟨key, hk⟩ := (hm p).mp hpp
    obtain ⟨hs, rfl⟩ := lookup_assignments (mem_pairs.mp hk)
    exact ⟨hs, pendingOf_none (hn _ hk)⟩
  have hass : ∀ p ∈ positions, ∃ e ∈ events, e.type = "mock.kafka.assign" ∧
      Current events e.fields ∧ sel.passes e.fields = true ∧ AgreesWithSync events e.fields ∧
        e.fields = p := fun p hpp => (mem_selected hpl).mp (hsel p hpp).1
  have hgrp : ∀ p ∈ positions, field p "group" ∈ groups events sel := fun p hpp =>
    List.mem_dedup.mpr (List.mem_map_of_mem (hsel p hpp).1)
  constructor
  · obtain ⟨group, hall⟩ : ∃ group, ∀ g ∈ groups events sel, g = group := by
      cases hgr : groups events sel with
      | nil => exact ⟨"", by simp⟩
      | cons group rest =>
        rw [hgr, List.length_cons] at hg
        obtain rfl : rest = [] := List.length_eq_zero_iff.mp (by omega)
        exact ⟨group, by simp⟩
    exact ⟨group, fun p hpp => hall _ (hgrp p hpp)⟩
  · intro p hpp
    obtain ⟨e, -, -, hc, -, -, rfl⟩ := hass p hpp
    exact hc
  · intro p hpp
    obtain ⟨e, he, hty, -, -, ha, rfl⟩ := hass p hpp
    exact ⟨e, he, hty, rfl, ha⟩
  · intro p hpp
    obtain ⟨e, he, hty, -, -, -, rfl⟩ := hass p hpp
    obtain ⟨e', he', hid⟩ := List.mem_map.mp (hsel _ hpp).2.1
    rw [List.mem_filter, decide_eq_true_iff] at he'
    exact ⟨e', he'.1, he'.2, (positionID_inj (hpl e' he'.1) (hpl e he)).mp hid⟩
  · exact fun p hpp => (hsel p hpp).2.2
  · intro e he hty hc hpass ha
    obtain ⟨p, hl⟩ := exists_assignment ((mem_selected hpl).mpr ⟨e, he, hty, hc, hpass, ha, rfl⟩)
    have hpp : p ∈ positions := (hm p).mpr ⟨_, mem_pairs.mpr hl⟩
    obtain ⟨e', he', -, -, -, -, rfl⟩ := hass p hpp
    exact ⟨_, hpp, (positionID_inj (hpl e' he') (hpl e he)).mp (lookup_assignments hl).2.symm⟩
  · intro topic htp
    obtain ⟨kv, hkv, hf⟩ := ht topic htp
    exact ⟨kv.2, (hm kv.2).mpr ⟨kv.1, hkv⟩, hf⟩

end plain

/-! ## executeKafkaWait -/

structure Receipt where
  topic : String
  partition : Int
  offset : Int
  after : Int

/-- A call past its checks; `wait_ready` has no receipt. -/
structure Wait where
  topics : List String
  service : String
  group : String
  receipt : Option Receipt
  generation : Int
  started : Int

def Wait.sel (w : Wait) : Selector := ⟨w.topics, w.service, w.group⟩

def Wait.method (w : Wait) : String :=
  if w.receipt.isSome then "wait_committed" else "wait_ready"

/-- What a turn of the loop finds; `expired` is the text of `ctx.Err()`. -/
structure Turn where
  expired : Option String
  generation : Int
  started : Int
  history : List Event
  active : Fields → Bool

inductive Answer where
  | ready (positions : List Fields)
  | committed (topic : String) (partition offset : Int)
      (group sourceService sourceInstance : String)

structure Loop where
  pinned : Option Fields
  reason : String

def Loop.start : Loop := ⟨none, "waiting for current assignment"⟩

/-- The one position of a partition. -/
def ownerOf (partition : Int) (ambiguous : String) (positions : List Fields) :
    Except CodedError (Option Fields) :=
  match positions.filter fun p => fieldInt p "partition" = partition with
  | [] => .ok none
  | [p] => .ok (some p)
  | _ => .error ⟨.ambiguous, ambiguous⟩

/-- The position of the publish: kept once it is found. -/
def pin (w : Wait) (r : Receipt) (history : List Event) (current : Option Fields) (why : String) :
    Option Fields → Except CodedError Fields
  | some p => .ok p
  | none => do
    let (prior, _) ← kafkaReadyPositions (history.filter fun e => e.seq ≤ r.after) w.sel none
    match ← ownerOf r.partition ("multiple consumers owned the receipt partition at " ++
      "publish time; specify service=") prior with
    | none => .error ⟨.unsupported, "no ready consumer owned the partition when publishing; " ++
        "call wait_ready before publishing"⟩
    | some p =>
      if current.isNone then .error ⟨.unsupported, "no ready consumer owns receipt partition; " ++
        "call wait_ready before publishing (" ++ why ++ ")"⟩
      else .ok p

def commits (r : Receipt) (pinned : Fields) (e : Event) : Bool :=
  e.type = "mock.kafka.commit" && r.after < e.seq && field e.fields "topic" = r.topic &&
    fieldInt e.fields "partition" = r.partition &&
    field e.fields "group" = field pinned "group" &&
    field e.fields "source_instance" = field pinned "source_instance" &&
    r.offset < fieldInt e.fields "offset"

/-- The part of a turn that looks for the commit. -/
def commitTurn (w : Wait) (r : Receipt) (history : List Event) (positions : List Fields)
    (why : String) (pinned : Option Fields) : Except CodedError (Loop ⊕ Answer) := do
  let current ← ownerOf r.partition
    "multiple current consumers own receipt partition; specify service=" positions
  let pinned ← pin w r history current why pinned
  if current.map positionID ≠ some (positionID pinned) then
    .error ⟨.stale, "consumer assignment changed during wait_committed; " ++
      "establish readiness and publish a new receipt"⟩
  else match history.find? (commits r pinned) with
    | some e => .ok (.inr (.committed r.topic r.partition (fieldInt e.fields "offset")
        (field e.fields "group") (field e.fields "source_service")
        (field e.fields "source_instance")))
    | none => .ok (.inl ⟨some pinned, "awaiting " ++ r.topic ++ "/" ++ field pinned "partition" ++
        " commit > " ++ toString r.offset ++ " from group=" ++ field pinned "group" ++
        " source_instance=" ++ field pinned "source_instance" ++
        " (commit is not business processing)"⟩)

def turn (w : Wait) (s : Loop) (t : Turn) : Except CodedError (Loop ⊕ Answer) :=
  match t.expired with
  | some err => .error ⟨.timeout, w.method ++ " for service=" ++ quote w.service ++ " group=" ++
      quote w.group ++ " topics=[" ++ " ".intercalate w.topics ++ "]: " ++ s.reason ++
      " (" ++ err ++ ")"⟩
  | none =>
    if t.generation ≠ w.generation then
      .error ⟨.stale, "test scope changed during Kafka wait"⟩
    else if t.started ≠ w.started then
      .error ⟨.stale, "broker stopped or restarted during Kafka wait"⟩
    else match kafkaReadyPositions t.history w.sel (some t.active) with
      | .error err => .error err
      | .ok (positions, why) =>
        match w.receipt with
        | some r => commitTurn w r t.history positions why s.pinned
        | none =>
          if positions ≠ [] ∧ why = "" then .ok (.inr (.ready positions))
          else .ok (.inl ⟨s.pinned, why⟩)

/-- The loop; `none` while it waits for another turn. -/
def executeKafkaWait (w : Wait) : Loop → List Turn → Option (Except CodedError Answer)
  | _, [] => none
  | s, t :: rest =>
    match turn w s t with
    | .error err => some (.error err)
    | .ok (.inr answer) => some (.ok answer)
    | .ok (.inl s') => executeKafkaWait w s' rest

/-! ## What a commit shows -/

/-- The one position of the partition in a snapshot. -/
def Owns (events : List Event) (sel : Selector) (active : Option (Fields → Bool))
    (partition : Int) (p : Fields) : Prop :=
  ∃ positions, Snapshot events sel active positions ∧
    (positions.filter fun q => fieldInt q "partition" = partition) = [p]

structure Committed (r : Receipt) (history : List Event) (pinned : Fields) (e : Event) : Prop where
  mem : e ∈ history
  type : e.type = "mock.kafka.commit"
  after : r.after < e.seq
  topic : field e.fields "topic" = r.topic
  partition : fieldInt e.fields "partition" = r.partition
  group : field e.fields "group" = field pinned "group"
  source : field e.fields "source_instance" = field pinned "source_instance"
  offset : r.offset < fieldInt e.fields "offset"

section loop

variable {w : Wait} {r : Receipt} {t : Turn} {history : List Event} {positions : List Fields}
  {why amb : String} {partition : Int} {p : Fields} {current pinned : Option Fields}
  {s s' : Loop} {a : Answer}

theorem ownerOf_some (h : ownerOf partition amb positions = .ok (some p)) :
    (positions.filter fun q => fieldInt q "partition" = partition) = [p] := by
  unfold ownerOf at h
  split at h
  · cases h
  · rename_i hp
    cases h
    exact hp
  · cases h

theorem owns_of_ok {events : List Event} {sel : Selector} {active : Option (Fields → Bool)}
    (hpl : ∀ e ∈ events, Plain e.fields)
    (h : kafkaReadyPositions events sel active = .ok (positions, why))
    (ho : ownerOf partition amb positions = .ok (some p)) : Owns events sel active partition p := by
  have hp := ownerOf_some ho
  refine ⟨positions, snapshot_of_ok hpl h (.inr ?_), hp⟩
  rintro rfl
  cases hp

theorem bind_ok {α β : Type} {x : Except CodedError α} {f : α → Except CodedError β} {y : β}
    (h : x >>= f = .ok y) : ∃ z, x = .ok z ∧ f z = .ok y := by
  cases x with
  | error err => cases h
  | ok z => exact ⟨z, rfl, h⟩

theorem pin_ok (hpl : ∀ e ∈ history, Plain e.fields)
    (h : pin w r history current why pinned = .ok p) : pinned = some p ∨ pinned = none ∧
      Owns (history.filter fun e => e.seq ≤ r.after) w.sel none r.partition p := by
  cases pinned with
  | some p' => cases h; exact .inl rfl
  | none =>
    obtain ⟨⟨prior, why'⟩, hk, h⟩ := bind_ok h
    obtain ⟨owner, ho, h⟩ := bind_ok h
    split at h
    · cases h
    · split at h
      · cases h
      · cases h
        exact .inr ⟨rfl, owns_of_ok (fun e he => hpl e (List.mem_of_mem_filter he)) hk ho⟩

theorem committed_of_find {e : Event} (h : history.find? (commits r p) = some e) :
    Committed r history p e := by
  have hc := List.find?_some h
  simp only [commits, Bool.and_eq_true, decide_eq_true_eq] at hc
  obtain ⟨⟨⟨⟨⟨⟨hty, haf⟩, hto⟩, hpa⟩, hgr⟩, hso⟩, hof⟩ := hc
  exact ⟨List.mem_of_find?_eq_some h, hty, haf, hto, hpa, hgr, hso, hof⟩

/-- What a turn that goes on or answers has seen: the pinned position and its current owner. -/
structure Held (w : Wait) (r : Receipt) (pinned : Option Fields) (t : Turn) (p q : Fields) :
    Prop where
  pinned : pinned = some p ∨ pinned = none ∧
    Owns (t.history.filter fun e => e.seq ≤ r.after) w.sel none r.partition p
  current : Owns t.history w.sel (some t.active) r.partition q
  same : positionID q = positionID p

theorem commitTurn_ok {out : Loop ⊕ Answer} (hpl : ∀ e ∈ t.history, Plain e.fields)
    (hk : kafkaReadyPositions t.history w.sel (some t.active) = .ok (positions, why))
    (h : commitTurn w r t.history positions why pinned = .ok out) :
    ∃ p q, Held w r pinned t p q ∧ (∀ s, out = .inl s → s.pinned = some p) ∧
      ∀ a, out = .inr a → ∃ e, Committed r t.history p e := by
  obtain ⟨current, ho, hc⟩ := bind_ok h
  obtain ⟨p, hp, ht⟩ := bind_ok hc
  split at ht
  · cases ht
  · rename_i hid
    rw [not_not, Option.map_eq_some_iff] at hid
    obtain ⟨q, rfl, hq⟩ := hid
    refine ⟨p, q, ⟨pin_ok hpl hp, owns_of_ok hpl hk ho, hq⟩, ?_⟩
    split at ht
    · rename_i hf
      cases ht
      exact ⟨nofun, fun _ _ => ⟨_, committed_of_find hf⟩⟩
    · cases ht
      exact ⟨fun _ hs => Sum.inl.inj hs ▸ rfl, nofun⟩

theorem turn_ok {out : Loop ⊕ Answer} (hr : w.receipt = some r)
    (hpl : ∀ e ∈ t.history, Plain e.fields) (h : turn w s t = .ok out) :
    ∃ p q, Held w r s.pinned t p q ∧ (∀ s', out = .inl s' → s'.pinned = some p) ∧
      ∀ a, out = .inr a → ∃ e, Committed r t.history p e := by
  unfold turn at h
  split at h
  · cases h
  · split_ifs at h
    split at h
    · cases h
    · rename_i hk
      rw [hr] at h
      exact commitTurn_ok hpl hk h

/-- The pinned position is that of the first turn, and stays; the turn that answers is the first
one after which the loop does not go on. -/
theorem executeKafkaWait_ok (hr : w.receipt = some r) {turns : List Turn}
    (hpl : ∀ t ∈ turns, ∀ e ∈ t.history, Plain e.fields)
    (h : executeKafkaWait w s turns = some (.ok a)) :
    ∃ p, (s.pinned = some p ∨ s.pinned = none ∧ ∃ t ∈ turns.head?,
        Owns (t.history.filter fun e => e.seq ≤ r.after) w.sel none r.partition p) ∧
      ∃ before t rest, turns = before ++ t :: rest ∧ executeKafkaWait w s before = none ∧
        executeKafkaWait w s (before ++ [t]) = some (.ok a) ∧
        ∃ q e, Owns t.history w.sel (some t.active) r.partition q ∧
          positionID q = positionID p ∧ Committed r t.history p e := by
  induction turns generalizing s with
  | nil => cases h
  | cons t rest ih =>
    unfold executeKafkaWait at h
    cases ht : turn w s t with
    | error err => rw [ht] at h; cases h
    | ok out =>
      obtain ⟨p, q, ⟨hpin, hcur, hid⟩, hgo, hans⟩ := turn_ok hr (hpl t List.mem_cons_self) ht
      have hpin' : s.pinned = some p ∨ s.pinned = none ∧ ∃ t' ∈ (t :: rest).head?,
          Owns (t'.history.filter fun e => e.seq ≤ r.after) w.sel none r.partition p :=
        hpin.imp_right fun hn => ⟨hn.1, t, rfl, hn.2⟩
      rw [ht] at h
      cases out with
      | inr a' =>
        obtain ⟨e, he⟩ := hans a' rfl
        refine ⟨p, hpin', [], t, rest, rfl, rfl, ?_, q, e, hcur, hid, he⟩
        rw [List.nil_append, executeKafkaWait, ht]
        exact h
      | inl s' =>
        obtain ⟨p', hp', before, t', rest', rfl, hnone, hsome, hrest⟩ :=
          ih (fun t' ht' => hpl t' (List.mem_cons_of_mem _ ht')) h
        have hsp := hgo s' rfl
        obtain rfl : p = p' := by
          obtain hp' | hp' := hp'
          · exact Option.some.inj (hsp.symm.trans hp')
          · rw [hsp] at hp'
            cases hp'.1
        refine ⟨p, hpin', t :: before, t', rest', rfl, ?_, ?_, hrest⟩
        · rw [executeKafkaWait, ht]
          exact hnone
        · rw [List.cons_append, executeKafkaWait, ht]
          exact hsome

theorem Owns.plain {events : List Event} {sel : Selector} {active : Option (Fields → Bool)}
    (h : Owns events sel active partition p) (hpl : ∀ e ∈ events, Plain e.fields) : Plain p := by
  obtain ⟨positions, hs, hf⟩ := h
  have hp : p ∈ positions := List.mem_of_mem_filter (hf ▸ List.mem_singleton_self p)
  obtain ⟨e, he, -, rfl, -⟩ := hs.assigned p hp
  exact hpl e he

end loop

/-- A snapshot without pending text is the current assignment. A commit is only found while the
position of the publish is the current one: in the turn that answers, the first one after which
the loop does not go on, and in its history. -/
theorem waits_answer_from_current :
    (∀ events sel active positions, (∀ e ∈ events, Plain e.fields) →
      kafkaReadyPositions events sel active = .ok (positions, "") →
        Snapshot events sel active positions) ∧
    ∀ w r turns answer, w.receipt = some r → (∀ t ∈ turns, ∀ e ∈ t.history, Plain e.fields) →
      executeKafkaWait w .start turns = some (.ok answer) →
        ∃ first ∈ turns.head?, ∃ before last rest, turns = before ++ last :: rest ∧
          executeKafkaWait w .start before = none ∧
          executeKafkaWait w .start (before ++ [last]) = some (.ok answer) ∧ ∃ p q e,
          Owns (first.history.filter fun e => e.seq ≤ r.after) w.sel none r.partition p ∧
          Owns last.history w.sel (some last.active) r.partition q ∧ SamePosition q p ∧
          Committed r last.history p e := by
  constructor
  · intro events sel active positions hpl h
    exact snapshot_of_ok hpl h (.inl rfl)
  · intro w r turns answer hr hpl h
    obtain ⟨p, hp, before, last, rest, hturns, hnone, hsome, q, e, hq, hid, he⟩ :=
      executeKafkaWait_ok hr hpl h
    have hl : last ∈ turns := hturns ▸ List.mem_append_right _ List.mem_cons_self
    obtain hp | ⟨-, first, hf, hp⟩ := hp
    · cases hp
    · have hpp := hp.plain fun e he =>
        hpl first (List.mem_of_mem_head? hf) e (List.mem_of_mem_filter he)
      exact ⟨first, hf, before, last, rest, hturns, hnone, hsome, p, q, e, hp, hq,
        (positionID_inj (hq.plain (hpl last hl)) hpp).mp hid, he⟩

/-! ## Runs -/

/-- The fields of a member's position, and others that take their place. -/
def sample (others : List (String × String)) : Fields :=
  storeAll ∅ ([("group", "g"), ("member_id", "m"), ("epoch", "1"), ("generation", "1"),
    ("assignment", "5"), ("source_instance", "i"), ("topic", "t"), ("partition", "0")] ++ others)

def sampleEvent (seq : Int) (type : String) (fields : Fields) : Event :=
  ⟨seq, type, type, "", "kafka", fields, ∅⟩

def sampleTurn : Turn where
  expired := none
  generation := 1
  started := 1
  history := [sampleEvent 2 "mock.kafka.group_sync" (sample []),
    sampleEvent 3 "mock.kafka.assign" (sample []),
    sampleEvent 4 "mock.kafka.group_ready" (sample []),
    sampleEvent 6 "mock.kafka.commit" (sample [("offset", "8")])]
  active := fun _ => true

def sampleWait : Wait := ⟨["t"], "", "g", some ⟨"t", 0, 7, 5⟩, 1, 1⟩

theorem sample_plain : ∀ t ∈ [sampleTurn], ∀ e ∈ t.history, Plain e.fields := by
  unfold Plain
  decide

/-- The one consumer commits behind the receipt, and both laws speak about the run. -/
theorem single_consumer_commits :
    Snapshot sampleTurn.history sampleWait.sel none [sample []] ∧
      executeKafkaWait sampleWait .start [sampleTurn] =
        some (.ok (.committed "t" 0 8 "g" "" "i")) ∧
      ∃ before last, before ++ [last] = [sampleTurn] ∧
        ∃ p e, Committed ⟨"t", 0, 7, 5⟩ last.history p e := by
  refine ⟨?_, rfl, ?_⟩
  · exact waits_answer_from_current.1 _ _ _ _ (sample_plain _ List.mem_cons_self) rfl
  · obtain ⟨_, _, before, last, rest, hturns, -, -, p, _, e, -, -, -, he⟩ :=
      waits_answer_from_current.2 sampleWait _ [sampleTurn] _ rfl sample_plain rfl
    obtain ⟨rfl, rfl⟩ : before = [] ∧ rest = [] := by
      have hlen := congrArg List.length hturns
      simp only [List.length_append, List.length_cons, List.length_nil] at hlen
      exact ⟨List.length_eq_zero_iff.mp (by omega), List.length_eq_zero_iff.mp (by omega)⟩
    exact ⟨[], last, hturns.symm, p, e, he⟩

/-- The ready event is of another assignment, whose key is the same text. -/
def joinedHistory : List Event :=
  [sampleEvent 2 "mock.kafka.group_sync" (sample [("source_instance", "a\x00b")]),
    sampleEvent 3 "mock.kafka.assign" (sample [("source_instance", "a\x00b")]),
    sampleEvent 4 "mock.kafka.group_ready"
      (sample [("assignment", "5\x00a"), ("source_instance", "b")])]

theorem foreign_ready_counts :
    kafkaReadyPositions joinedHistory sampleWait.sel none =
        .ok ([sample [("source_instance", "a\x00b")]], "") ∧
      ¬ Snapshot joinedHistory sampleWait.sel none [sample [("source_instance", "a\x00b")]] := by
  refine ⟨rfl, fun h => ?_⟩
  obtain ⟨e, he, hty, hs⟩ := h.ready _ List.mem_cons_self
  have ha := hs "assignment" (by decide)
  simp only [joinedHistory, List.mem_cons, List.not_mem_nil, or_false] at he
  obtain rfl | rfl | rfl := he
  · exact absurd hty (by decide)
  · exact absurd hty (by decide)
  · exact absurd ha (by decide)

end faultbox.kafka_wait
