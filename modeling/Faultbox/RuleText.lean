-- Fault rules as text, syscall=ERRNO:PROB%[:PATH][:TRIGGER] and syscall=delay:DURATION:PROB%
-- [:TRIGGER], and ParseFaultRule. The law: every segment behind the probability is the path or
-- the trigger of the rule. The last path and the first trigger win, and a delay rule has no
-- path, so it holds exactly where there is at most one of each, and no path on a delay.
import Faultbox.GoText
import Faultbox.SyscallFaults

open goval gopath gotext faultbox.engine faultbox.syscall_faults

namespace faultbox.rule_text

/-! ## The parser -/

/-- What the parser takes from the library: the verb `%q`, the two parsers, and the arithmetic
on the probability. -/
structure Lib (F : Type) where
  quote : Bytes → Bytes
  parseDuration : Bytes → Except Bytes Int
  parseFloat : Bytes → Except Bytes F
  percent : F → F
  outOfRange : F → Bool

/-- The fields that the parser sets in a `FaultRule`. -/
structure Rule (F : Type) where
  syscall : Bytes
  action : FaultAction
  errno : Nat
  delay : Int
  probability : F
  pathGlob : Bytes
  trigger : FaultTrigger
  triggerN : Int
deriving DecidableEq

def colon : UInt8 := 58
def equals : UInt8 := 61
def percentSign : UInt8 := 37

def nthText : Bytes := bytes "nth="
def afterText : Bytes := bytes "after="

def errnoByName (name : Bytes) : Option Nat :=
  (errnoMap.find? fun e => bytes e.1 == upperText name).map (·.2)

section parser

variable {F : Type} (lib : Lib F) (raw : Bytes)

def invalid (reason : Bytes) : Bytes :=
  bytes "invalid fault rule " ++ lib.quote raw ++ bytes ": " ++ reason

def isTriggerSegment (s : Bytes) : Bool := nthText.isPrefixOf s || afterText.isPrefixOf s

def parseTriggerFromSegments : List Bytes → Except Bytes (FaultTrigger × Int)
  | [] => .ok (.always, 0)
  | seg :: rest =>
    let seg := trimSpace seg
    if seg = [] then parseTriggerFromSegments rest
    else if nthText.isPrefixOf seg then
      let (n, ok) := atoi (seg.drop nthText.length)
      if ok = false ∨ n < 1 then
        .error (invalid lib raw (bytes "bad nth value " ++ lib.quote seg ++
          bytes " (must be >= 1)"))
      else .ok (.nth, n)
    else if afterText.isPrefixOf seg then
      let (n, ok) := atoi (seg.drop afterText.length)
      if ok = false ∨ n < 0 then
        .error (invalid lib raw (bytes "bad after value " ++ lib.quote seg ++
          bytes " (must be >= 0)"))
      else .ok (.after, n)
    else parseTriggerFromSegments rest

/-- The lines on the probability, which both kinds of rules share. -/
def parseProbability (seg : Bytes) : Except Bytes F :=
  let probStr := trimSpace seg
  let probStr := if probStr.getLast? = some percentSign then probStr.dropLast else probStr
  match lib.parseFloat probStr with
  | .error err => .error (invalid lib raw (bytes "bad probability: " ++ err))
  | .ok f =>
    let prob := lib.percent f
    if lib.outOfRange prob then .error (invalid lib raw (bytes "probability must be 0-100%"))
    else .ok prob

def parseDelayRule (syscallName : Bytes) : List Bytes → Except Bytes (Rule F)
  | duration :: probability :: rest =>
    let durationStr := trimSpace duration
    match lib.parseDuration durationStr with
    | .error err =>
      .error (invalid lib raw (bytes "bad duration " ++ lib.quote durationStr ++ bytes ": " ++ err))
    | .ok delay =>
      if delay < 0 then .error (invalid lib raw (bytes "delay must be positive"))
      else
        match parseProbability lib raw probability with
        | .error err => .error err
        | .ok prob =>
          match parseTriggerFromSegments lib raw rest with
          | .error err => .error err
          | .ok (trigger, n) => .ok ⟨syscallName, .delay, 0, delay, prob, [], trigger, n⟩
  | _ => .error (invalid lib raw (bytes "delay requires DURATION:PROB%"))

/-- One turn of the loop over the segments behind the probability: the path so far, and the
triggers so far. -/
def sortSegment (found : Bytes × List Bytes) (seg : Bytes) : Bytes × List Bytes :=
  let seg := trimSpace seg
  if isTriggerSegment seg then (found.1, found.2 ++ [seg])
  else if seg ≠ [] then (seg, found.2)
  else found

def parseDenyRule (syscallName : Bytes) : List Bytes → Except Bytes (Rule F)
  | errno :: probability :: rest =>
    let errnoStr := trimSpace errno
    match errnoByName errnoStr with
    | none => .error (invalid lib raw (bytes "unknown errno " ++ lib.quote errnoStr))
    | some errno =>
      match parseProbability lib raw probability with
      | .error err => .error err
      | .ok prob =>
        let (pathGlob, triggerSegments) := rest.foldl sortSegment ([], [])
        match parseTriggerFromSegments lib raw triggerSegments with
        | .error err => .error err
        | .ok (trigger, n) => .ok ⟨syscallName, .deny, errno, 0, prob, pathGlob, trigger, n⟩
  -- the caller passes at least two segments
  | _ => .error []

def parseFaultRule : Except Bytes (Rule F) :=
  match splitN equals 2 raw with
  | [name, params] =>
    let syscallName := trimSpace name
    if syscallName = [] then .error (invalid lib raw (bytes "empty syscall name"))
    else
      match splitN colon 5 params with
      | action :: first :: rest =>
        if (trimSpace action).map lower = bytes "delay" then
          parseDelayRule lib raw syscallName (first :: rest)
        else parseDenyRule lib raw syscallName (action :: first :: rest)
      | _ => .error (invalid lib raw (bytes "expected ACTION:PARAMS after '='"))
  | _ => .error (invalid lib raw (bytes "expected syscall=ACTION:PARAMS"))

end parser

/-! ## The segments of a text -/

def segments (raw : Bytes) : List Bytes :=
  match splitN equals 2 raw with
  | [_, params] => splitN colon 5 params
  | _ => []

def isDelay (raw : Bytes) : Bool :=
  match segments raw with
  | action :: _ => (trimSpace action).map lower == bytes "delay"
  | [] => false

def extras (raw : Bytes) : List Bytes :=
  (((segments raw).drop (if isDelay raw then 3 else 2)).map trimSpace).filter (· ≠ [])

/-- The trigger that a segment asks for. -/
def triggerOf (seg : Bytes) : Option (FaultTrigger × Int) :=
  if nthText.isPrefixOf seg then
    let (n, ok) := atoi (seg.drop nthText.length)
    if ok = false ∨ n < 1 then none else some (.nth, n)
  else if afterText.isPrefixOf seg then
    let (n, ok) := atoi (seg.drop afterText.length)
    if ok = false ∨ n < 0 then none else some (.after, n)
  else none

/-- The rule has the segment as its path or as its trigger. -/
def Reflects {F : Type} (rule : Rule F) (seg : Bytes) : Prop :=
  rule.pathGlob = seg ∨ triggerOf seg = some (rule.trigger, rule.triggerN)

/-- No part of the text is dropped. -/
def NothingDropped {F : Type} (raw : Bytes) (rule : Rule F) : Prop :=
  ∀ seg ∈ extras raw, Reflects rule seg

/-- One trigger, and one path where the rule is not a delay. -/
structure Unambiguous (raw : Bytes) : Prop where
  triggers : ∀ a ∈ extras raw, ∀ b ∈ extras raw, isTriggerSegment a = true →
    isTriggerSegment b = true → triggerOf a = triggerOf b
  paths : ∀ a ∈ extras raw, ∀ b ∈ extras raw, isTriggerSegment a = false →
    isTriggerSegment b = false → a = b
  delays : isDelay raw = true → ∀ a ∈ extras raw, isTriggerSegment a = true

/-! ## The loops over the segments -/

theorem triggerOf_eq_none {seg : Bytes} (h : isTriggerSegment seg = false) :
    triggerOf seg = none := by
  obtain ⟨hnth, ha⟩ := Bool.or_eq_false_iff.mp h
  simp [triggerOf, hnth, ha]

theorem ne_nil_of_trigger {seg : Bytes} (h : isTriggerSegment seg = true) : seg ≠ [] := by
  rintro rfl
  revert h
  decide

theorem parseTrigger_ok_iff {F : Type} (lib : Lib F) (raw : Bytes) (segs : List Bytes)
    (t : FaultTrigger × Int) :
    parseTriggerFromSegments lib raw segs = .ok t ↔
      match (segs.map trimSpace).find? isTriggerSegment with
      | none => t = (.always, 0)
      | some seg => triggerOf seg = some t := by
  induction segs with
  | nil => simp [parseTriggerFromSegments, eq_comm]
  | cons seg rest ih =>
    rw [List.map_cons]
    by_cases ht : isTriggerSegment (trimSpace seg) = true
    · rw [List.find?_cons_of_pos ht]
      have hne := ne_nil_of_trigger ht
      simp only [parseTriggerFromSegments, hne, if_false, triggerOf]
      by_cases hnth : nthText.isPrefixOf (trimSpace seg) = true
      · simp only [hnth, if_true]
        split <;> simp
      · have ha : afterText.isPrefixOf (trimSpace seg) = true := by
          simpa [isTriggerSegment, hnth] using ht
        simp only [hnth, ha, if_true, Bool.false_eq_true, if_false]
        split <;> simp
    · rw [List.find?_cons_of_neg ht, ← ih]
      obtain ⟨hnth, ha⟩ := Bool.or_eq_false_iff.mp (Bool.eq_false_iff.mpr ht)
      simp [parseTriggerFromSegments, hnth, ha]

theorem triggers_foldl (segs : List Bytes) (found : Bytes × List Bytes) :
    (segs.foldl sortSegment found).2 =
      found.2 ++ (segs.map trimSpace).filter isTriggerSegment := by
  induction segs generalizing found with
  | nil => simp
  | cons seg rest ih =>
    rw [List.foldl_cons, ih, List.map_cons, sortSegment]
    by_cases ht : isTriggerSegment (trimSpace seg) = true
    · rw [List.filter_cons_of_pos ht]
      simp [ht]
    · rw [List.filter_cons_of_neg ht]
      simp only [ht, Bool.false_eq_true, if_false]
      split <;> simp

/-- The loop of a deny rule keeps a path of the text, if there is one. -/
theorem path_foldl (segs : List Bytes) (found : Bytes × List Bytes) :
    ((∀ seg ∈ segs.map trimSpace, seg ≠ [] → isTriggerSegment seg = true) ∧
        (segs.foldl sortSegment found).1 = found.1) ∨
      ((segs.foldl sortSegment found).1 ∈ (segs.map trimSpace).filter (· ≠ []) ∧
        isTriggerSegment (segs.foldl sortSegment found).1 = false) := by
  induction segs generalizing found with
  | nil => exact .inl ⟨by simp, rfl⟩
  | cons seg rest ih =>
    rw [List.foldl_cons, List.map_cons]
    rcases ih (sortSegment found seg) with ⟨hn, hp⟩ | ⟨hmem, hp⟩
    · -- the last turn that can set the path is the one on `seg`
      rw [hp]
      by_cases ht : isTriggerSegment (trimSpace seg) = true
      · refine .inl ⟨?_, by simp [sortSegment, ht]⟩
        rw [List.forall_mem_cons]
        exact ⟨fun _ => ht, hn⟩
      · by_cases he : trimSpace seg = []
        · have hk : sortSegment found seg = found := by
            unfold sortSegment
            dsimp only
            rw [if_neg ht, if_neg (not_not.mpr he)]
          refine .inl ⟨?_, by rw [hk]⟩
          rw [List.forall_mem_cons]
          exact ⟨fun hne => absurd he hne, hn⟩
        · have hset : (sortSegment found seg).1 = trimSpace seg := by
            simp [sortSegment, ht, he]
          rw [hset]
          refine .inr ⟨?_, Bool.eq_false_iff.mpr ht⟩
          rw [List.filter_cons_of_pos (by simpa using he)]
          exact List.mem_cons_self
    · refine .inr ⟨?_, hp⟩
      rw [List.filter_cons]
      split
      · exact List.mem_cons_of_mem _ hmem
      · exact hmem

/-! ## What an accepted text gives -/

/-- Its trigger is that of the first trigger segment, its path is a path of the text, and there
is none on a delay. -/
structure Accepted {F : Type} (raw : Bytes) (rule : Rule F) : Prop where
  trigger : match (extras raw).find? isTriggerSegment with
    | none => (rule.trigger, rule.triggerN) = (.always, 0)
    | some seg => triggerOf seg = some (rule.trigger, rule.triggerN)
  path : (rule.pathGlob = [] ∧
      (isDelay raw = false → ∀ seg ∈ extras raw, isTriggerSegment seg = true)) ∨
    (isDelay raw = false ∧ rule.pathGlob ∈ extras raw ∧ isTriggerSegment rule.pathGlob = false)

theorem find_trigger_filter (segs : List Bytes) :
    (segs.filter (· ≠ [])).find? isTriggerSegment = segs.find? isTriggerSegment := by
  rw [List.find?_filter]
  congr 1
  funext seg
  by_cases ht : isTriggerSegment seg = true
  · simp [ht, ne_nil_of_trigger ht]
  · simp [ht]

section accepted

variable {F : Type} {lib : Lib F} {raw : Bytes} {rule : Rule F}

theorem parseDelayRule_ok {name : Bytes} {segs : List Bytes}
    (h : parseDelayRule lib raw name segs = .ok rule) :
    rule.pathGlob = [] ∧
      parseTriggerFromSegments lib raw (segs.drop 2) = .ok (rule.trigger, rule.triggerN) := by
  unfold parseDelayRule at h
  split at h
  · dsimp only at h
    split at h
    · cases h
    · split at h
      · cases h
      · split at h
        · cases h
        · split at h
          · cases h
          · rename_i ht
            cases h
            exact ⟨rfl, ht⟩
  · cases h

theorem parseDenyRule_ok {name : Bytes} {segs : List Bytes}
    (h : parseDenyRule lib raw name segs = .ok rule) :
    rule.pathGlob = ((segs.drop 2).foldl sortSegment ([], [])).1 ∧
      parseTriggerFromSegments lib raw (((segs.drop 2).map trimSpace).filter isTriggerSegment) =
        .ok (rule.trigger, rule.triggerN) := by
  unfold parseDenyRule at h
  split at h
  · rename_i errno probability rest
    have ht := triggers_foldl rest ([], [])
    dsimp only at h
    split at h
    · cases h
    · split at h
      · cases h
      · split at h
        · cases h
        · rename_i htr
          cases h
          refine ⟨rfl, ?_⟩
          rw [ht] at htr
          exact htr
  · cases h

theorem find_trigger_again (segs : List Bytes) :
    ((((segs.map trimSpace).filter isTriggerSegment)).map trimSpace).find? isTriggerSegment =
      (segs.map trimSpace).find? isTriggerSegment := by
  have hs : ((segs.map trimSpace).filter isTriggerSegment).map trimSpace =
      (segs.map trimSpace).filter isTriggerSegment := by
    conv_rhs => rw [← List.map_id ((segs.map trimSpace).filter isTriggerSegment)]
    apply List.map_congr_left
    intro seg hseg
    obtain ⟨x, -, rfl⟩ := List.mem_map.mp (List.mem_of_mem_filter hseg)
    exact trimSpace_trimSpace x
  rw [hs, List.find?_filter]
  simp

theorem parseFaultRule_ok (h : parseFaultRule lib raw = .ok rule) : Accepted raw rule := by
  unfold parseFaultRule at h
  split at h
  · rename_i name params he
    dsimp only at h
    split at h
    · cases h
    · split at h
      · rename_i action first rest hc
        have hs : segments raw = action :: first :: rest := by
          unfold segments
          rw [he]
          exact hc
        split at h
        · rename_i ha
          have hd : isDelay raw = true := by
            unfold isDelay
            rw [hs]
            simpa using ha
          have hex : extras raw = ((rest.drop 1).map trimSpace).filter (· ≠ []) := by
            unfold extras
            rw [hd, hs]
            rfl
          obtain ⟨hp, ht⟩ := parseDelayRule_ok h
          rw [List.drop_succ_cons, parseTrigger_ok_iff] at ht
          refine ⟨?_, .inl ⟨hp, by simp [hd]⟩⟩
          rw [hex, find_trigger_filter]
          exact ht
        · rename_i ha
          have hde : isDelay raw = false := by
            unfold isDelay
            rw [hs]
            simpa using ha
          have hex : extras raw = (rest.map trimSpace).filter (· ≠ []) := by
            unfold extras
            rw [hde, hs]
            rfl
          obtain ⟨hp, ht⟩ := parseDenyRule_ok h
          rw [List.drop_succ_cons, List.drop_succ_cons, List.drop_zero, parseTrigger_ok_iff,
            find_trigger_again] at ht
          rw [List.drop_succ_cons, List.drop_succ_cons, List.drop_zero] at hp
          refine ⟨?_, ?_⟩
          · rw [hex, find_trigger_filter]
            exact ht
          · rcases path_foldl rest ([], []) with ⟨hn, hf⟩ | ⟨hmem, hf⟩
            · refine .inl ⟨hp.trans hf, fun _ seg hseg => ?_⟩
              rw [hex, List.mem_filter] at hseg
              exact hn seg hseg.1 (by simpa using hseg.2)
            · rw [← hp] at hmem hf
              exact .inr ⟨hde, hex ▸ hmem, hf⟩
      · cases h
  · cases h

end accepted

/-! ## The law -/

theorem ne_nil_of_mem_extras {raw seg : Bytes} (h : seg ∈ extras raw) : seg ≠ [] := by
  unfold extras at h
  simpa using (List.mem_filter.mp h).2

section law

variable {F : Type} {raw : Bytes} {rule : Rule F}

theorem reflects_trigger_iff (h : Accepted raw rule) {seg : Bytes} (hseg : seg ∈ extras raw)
    (ht : isTriggerSegment seg = true) :
    Reflects rule seg ↔ triggerOf seg = some (rule.trigger, rule.triggerN) := by
  refine ⟨?_, .inr⟩
  rintro (hp | hs)
  · rcases h.path with ⟨he, -⟩ | ⟨-, -, hf⟩
    · exact absurd (hp.symm.trans he) (ne_nil_of_mem_extras hseg)
    · rw [hp, ht] at hf
      cases hf
  · exact hs

theorem reflects_path_iff {seg : Bytes} (hp : isTriggerSegment seg = false) :
    Reflects rule seg ↔ rule.pathGlob = seg := by
  unfold Reflects
  rw [triggerOf_eq_none hp]
  simp

theorem Accepted.unambiguous (h : Accepted raw rule) (hall : NothingDropped raw rule) :
    Unambiguous raw where
  triggers := by
    intro a ha b hb hta htb
    rw [(reflects_trigger_iff h ha hta).mp (hall a ha),
      (reflects_trigger_iff h hb htb).mp (hall b hb)]
  paths := by
    intro a ha b hb hpa hpb
    rw [← (reflects_path_iff hpa).mp (hall a ha), (reflects_path_iff hpb).mp (hall b hb)]
  delays := by
    intro hd a ha
    by_contra hp
    have hg := (reflects_path_iff (Bool.eq_false_iff.mpr hp)).mp (hall a ha)
    rcases h.path with ⟨he, -⟩ | ⟨hde, -, -⟩
    · exact ne_nil_of_mem_extras ha (hg.symm.trans he)
    · rw [hd] at hde
      cases hde

theorem Accepted.nothingDropped (h : Accepted raw rule) (hone : Unambiguous raw) :
    NothingDropped raw rule := by
  intro seg hseg
  by_cases ht : isTriggerSegment seg = true
  · rw [reflects_trigger_iff h hseg ht]
    have hf := h.trigger
    cases hfi : (extras raw).find? isTriggerSegment with
    | none => exact absurd ht (List.find?_eq_none.mp hfi seg hseg)
    | some first =>
      simp only [hfi] at hf
      rw [← hf]
      exact hone.triggers seg hseg first (List.mem_of_find?_eq_some hfi) ht
        (List.find?_some hfi)
  · have hp : isTriggerSegment seg = false := Bool.eq_false_iff.mpr ht
    rw [reflects_path_iff hp]
    rcases h.path with ⟨-, hn⟩ | ⟨-, hmem, hg⟩
    · by_cases hd : isDelay raw = true
      · exact absurd (hone.delays hd seg hseg) ht
      · exact absurd (hn (Bool.eq_false_iff.mpr hd) seg hseg) ht
    · exact hone.paths _ hmem seg hseg hg hp

/-- A rule that is accepted has every segment of its text, exactly where the text has at most one
path, none on a delay, and at most one trigger. -/
theorem nothingDropped_iff (lib : Lib F) (raw : Bytes) (rule : Rule F)
    (h : parseFaultRule lib raw = .ok rule) : NothingDropped raw rule ↔ Unambiguous raw :=
  ⟨(parseFaultRule_ok h).unambiguous, (parseFaultRule_ok h).nothingDropped⟩

end law

/-- The library on whole numbers of percent and on one duration. -/
def someLib : Lib Rat where
  quote s := [34] ++ s ++ [34]
  parseDuration s :=
    if s = bytes "200ms" then .ok 200000000
    else .error (bytes "time: invalid duration " ++ s)
  parseFloat s :=
    match digitsValue s with
    | some n => .ok n
    | none => .error (bytes "strconv.ParseFloat: parsing " ++ s ++ bytes ": invalid syntax")
  percent p := p / 100
  outOfRange p := decide (p < 0) || decide (1 < p)

def keptText : Bytes := bytes "openat=ENOENT:100%:/data/*:nth=3"

/-- A path and a trigger are both in the rule. -/
theorem path_and_trigger_kept :
    parseFaultRule someLib keptText =
      .ok ⟨bytes "openat", .deny, 2, 0, 1, bytes "/data/*", .nth, 3⟩ ∧
    NothingDropped keptText
      (⟨bytes "openat", .deny, 2, 0, 1, bytes "/data/*", .nth, 3⟩ : Rule Rat) := by
  have hp : parseFaultRule someLib keptText =
      .ok ⟨bytes "openat", .deny, 2, 0, 1, bytes "/data/*", .nth, 3⟩ := by decide +kernel
  refine ⟨hp, (nothingDropped_iff someLib keptText _ hp).mpr ?_⟩
  exact ⟨by decide, by decide, by decide⟩

def cutText : Bytes := bytes "openat=ENOENT:100%:/data/a:b"

/-- A path with a colon is cut, and its first part is dropped. -/
theorem path_with_colon_dropped :
    parseFaultRule someLib cutText =
      .ok ⟨bytes "openat", .deny, 2, 0, 1, bytes "b", .always, 0⟩ ∧
    ¬NothingDropped cutText
      (⟨bytes "openat", .deny, 2, 0, 1, bytes "b", .always, 0⟩ : Rule Rat) := by
  refine ⟨by decide +kernel, ?_⟩
  intro hall
  rcases hall (bytes "/data/a") (by decide) with hp | ht
  · revert hp
    decide
  · revert ht
    decide

end faultbox.rule_text
