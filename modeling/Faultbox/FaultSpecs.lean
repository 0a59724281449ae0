-- Faults in YAML: the object form, which ToRuleString flattens into the text that
-- ParseFaultRule reads. The law: a rule that comes back has the fields of the object. The text
-- has no quoting, no place for the path of a delay, takes any other action for a deny and any
-- probability for percent, so it holds exactly for objects whose fields fit the text.
import Faultbox.Blanks
import Faultbox.RuleText
import Faultbox.FaultRules

open goval gopath gotext faultbox.engine faultbox.rule_text

namespace faultbox.fault_specs

/-! ## The source -/

structure TriggerSpec where
  type : Bytes
  n : Int
  fits : Fits n

structure FaultSpec where
  raw : Bytes
  syscall : Bytes
  action : Bytes
  errno : Bytes
  delay : Bytes
  probability : Bytes
  pathGlob : Bytes
  trigger : Option TriggerSpec

def delayText : Bytes := bytes "delay"

def errnoOf (spec : FaultSpec) : Bytes := if spec.errno = [] then bytes "EIO" else spec.errno

def TriggerSpec.text (t : TriggerSpec) : Bytes := t.type ++ equals :: number t.n

def toRuleString (spec : FaultSpec) : Bytes :=
  if spec.raw ≠ [] then spec.raw
  else
    let fault :=
      if spec.action = delayText then
        bytes "delay:" ++ spec.delay ++ colon :: spec.probability
      else
        errnoOf spec ++ colon :: spec.probability ++
          (if spec.pathGlob ≠ [] then colon :: spec.pathGlob else [])
    let trigger := match spec.trigger with
      | some t => colon :: t.text
      | none => []
    spec.syscall ++ equals :: (fault ++ trigger)

/-! ## What the object says -/

/-- The action that a text names. No text is a deny. -/
def actionOf (text : Bytes) : Option FaultAction :=
  if text = delayText then some .delay
  else if text = bytes "deny" ∨ text = [] then some .deny
  else none

def triggerMeant : Option TriggerSpec → Option (FaultTrigger × Int)
  | none => some (.always, 0)
  | some t =>
    if t.type = bytes "nth" then some (.nth, t.n)
    else if t.type = bytes "after" then some (.after, t.n)
    else none

/-- The probability that a text names: percent where it has the sign, else the number. -/
def probabilityMeant {F : Type} (lib : Lib F) (text : Bytes) : Option F :=
  let t := trimSpace text
  if t.getLast? = some percentSign then (lib.parseFloat t.dropLast).toOption.map lib.percent
  else (lib.parseFloat t).toOption

/-- The rule has every field of the object. -/
structure Means {F : Type} (lib : Lib F) (spec : FaultSpec) (rule : Rule F) : Prop where
  syscall : rule.syscall = spec.syscall
  action : actionOf spec.action = some rule.action
  errno : rule.action = .deny → errnoByName (trimSpace (errnoOf spec)) = some rule.errno
  delay : rule.action = .delay → lib.parseDuration (trimSpace spec.delay) = .ok rule.delay
  probability : probabilityMeant lib spec.probability = some rule.probability
  path : rule.pathGlob = spec.pathGlob
  trigger : triggerMeant spec.trigger = some (rule.trigger, rule.triggerN)

/-- A name of the tables of system calls. -/
def KnownSyscall (name : Bytes) : Prop := ∃ arch, ∃ e ∈ syscallNames arch, bytes e.2 = name

/-- Neither a duration nor a number has a colon. -/
structure Colonless {F : Type} (lib : Lib F) : Prop where
  duration : ∀ s d, lib.parseDuration s = .ok d → colon ∉ s
  float : ∀ s f, lib.parseFloat s = .ok f → colon ∉ s

/-- The fields fit the text: no separator in them, an action and a trigger that the text has, a
probability of percent or that percent leaves alone, and a path that the parser takes for one. -/
structure Fitting {F : Type} (lib : Lib F) (spec : FaultSpec) : Prop where
  action : actionOf spec.action ≠ none
  delay : spec.action = delayText → colon ∉ spec.delay ∧ spec.pathGlob = []
  errno : spec.action ≠ delayText →
    colon ∉ errnoOf spec ∧ (trimSpace (errnoOf spec)).map lower ≠ delayText
  probability : colon ∉ spec.probability
  percent : (trimSpace spec.probability).getLast? = some percentSign ∨
    ∀ f, lib.parseFloat (trimSpace spec.probability) = .ok f → lib.percent f = f
  path : colon ∉ spec.pathGlob ∧ trimSpace spec.pathGlob = spec.pathGlob ∧
    isTriggerSegment spec.pathGlob = false
  trigger : triggerMeant spec.trigger ≠ none

/-! ## The fields of the text -/

def pathField (spec : FaultSpec) : List Bytes := if spec.pathGlob = [] then [] else [spec.pathGlob]

def triggerField (spec : FaultSpec) : List Bytes := (spec.trigger.map TriggerSpec.text).toList

def fieldsOf (spec : FaultSpec) : List Bytes :=
  if spec.action = delayText then
    [delayText, spec.delay, spec.probability] ++ triggerField spec
  else [errnoOf spec, spec.probability] ++ pathField spec ++ triggerField spec

theorem length_triggerField (spec : FaultSpec) : (triggerField spec).length ≤ 1 := by
  unfold triggerField
  cases spec.trigger <;> simp

theorem toRuleString_eq {spec : FaultSpec} (hraw : spec.raw = []) :
    toRuleString spec = spec.syscall ++ equals :: [colon].intercalate (fieldsOf spec) := by
  have hdelay : bytes "delay:" = delayText ++ [colon] := by decide
  unfold toRuleString fieldsOf pathField triggerField
  rw [if_neg (not_not.mpr hraw)]
  by_cases ha : spec.action = delayText
  · cases ht : spec.trigger <;> simp [ha, hdelay]
  · by_cases hp : spec.pathGlob = []
    · cases ht : spec.trigger <;> simp [ha, hp]
    · cases ht : spec.trigger <;> simp [ha, hp]

variable {name raw text s : Bytes} {t : TriggerSpec} {rest : List Bytes}

theorem syscall_plain (h : KnownSyscall name) :
    equals ∉ name ∧ trimSpace name = name ∧ name ≠ [] := by
  have hall : ∀ arch : Arch, ∀ e ∈ syscallNames arch, bytes e.2 ≠ [] ∧
      ((bytes e.2).all fun c => decide (IsGraphic c ∧ c ≠ equals)) = true := by
    intro arch
    cases arch <;> decide
  obtain ⟨arch, e, he, rfl⟩ := h
  obtain ⟨hne, hgraphic⟩ := hall arch e he
  have hc : ∀ c ∈ bytes e.2, IsGraphic c ∧ c ≠ equals :=
    fun c hc => of_decide_eq_true (List.all_eq_true.mp hgraphic c hc)
  exact ⟨fun hmem => (hc _ hmem).2 rfl,
    trimSpace_word (isWord_of_visible hne fun c hmem => (hc c hmem).1), hne⟩

/-! ## The trigger -/

theorem trigger_cases (h : triggerMeant (some t) ≠ none) :
    (t.text = nthText ++ number t.n ∧ triggerMeant (some t) = some (.nth, t.n)) ∨
      (t.text = afterText ++ number t.n ∧ triggerMeant (some t) = some (.after, t.n)) := by
  have hne : bytes "after" ≠ bytes "nth" := by decide
  unfold triggerMeant TriggerSpec.text at *
  by_cases hnth : t.type = bytes "nth"
  · refine .inl ⟨?_, by simp [hnth]⟩
    rw [hnth, List.append_cons]
    rfl
  · by_cases ha : t.type = bytes "after"
    · refine .inr ⟨?_, by simp [ha, hne]⟩
      rw [ha, List.append_cons]
      rfl
    · simp [hnth, ha] at h

theorem graphic_keyword {w : Bytes} (hw : (w.all fun c => decide (IsGraphic c ∧ c ≠ colon)) = true)
    (n : Int) : ∀ c ∈ w ++ number n, IsGraphic c ∧ c ≠ colon := by
  intro c hc
  rcases List.mem_append.mp hc with hc | hc
  · exact of_decide_eq_true (List.all_eq_true.mp hw c hc)
  · rcases mem_number hc with rfl | hd
    · decide
    · refine ⟨graphic_of_digit hd, ?_⟩
      rintro rfl
      exact absurd hd (by decide)

theorem graphic_text (h : triggerMeant (some t) ≠ none) :
    ∀ c ∈ t.text, IsGraphic c ∧ c ≠ colon := by
  rcases trigger_cases h with ⟨ht, -⟩ | ⟨ht, -⟩ <;> rw [ht]
  · exact graphic_keyword (by decide) t.n
  · exact graphic_keyword (by decide) t.n

theorem colon_notMem_text (h : triggerMeant (some t) ≠ none) :
    colon ∉ t.text := fun hc => (graphic_text h colon hc).2 rfl

theorem isTriggerSegment_text (h : triggerMeant (some t) ≠ none) :
    isTriggerSegment t.text = true := by
  unfold isTriggerSegment
  rcases trigger_cases h with ⟨ht, -⟩ | ⟨ht, -⟩ <;> simp [ht]

theorem trimSpace_text (h : triggerMeant (some t) ≠ none) :
    trimSpace t.text = t.text :=
  trimSpace_word (isWord_of_visible (ne_nil_of_trigger (isTriggerSegment_text h))
    fun c hc => (graphic_text h c hc).1)

theorem triggerOf_text (h : triggerMeant (some t) ≠ none) {x : FaultTrigger × Int}
    (hx : triggerOf t.text = some x) : triggerMeant (some t) = some x := by
  have hapart : nthText.isPrefixOf (afterText ++ number t.n) = false := rfl
  rcases trigger_cases h with ⟨ht, hm⟩ | ⟨ht, hm⟩
  · rw [ht] at hx
    simp only [triggerOf, List.isPrefixOf_iff_prefix.mpr (List.prefix_append _ _), if_true,
      List.drop_left, atoi_number t.fits] at hx
    split at hx
    · cases hx
    · rw [hm, hx]
  · rw [ht] at hx
    simp only [triggerOf, hapart, Bool.false_eq_true, if_false, if_true, List.drop_left,
      List.isPrefixOf_iff_prefix.mpr (List.prefix_append _ _), atoi_number t.fits] at hx
    split at hx
    · cases hx
    · rw [hm, hx]

section law

variable {F : Type} {lib : Lib F} {spec : FaultSpec} {rule : Rule F}

theorem trigger_read (h : triggerMeant spec.trigger ≠ none) (raw : Bytes)
    {x : FaultTrigger × Int}
    (hx : parseTriggerFromSegments lib raw (triggerField spec) = .ok x) :
    triggerMeant spec.trigger = some x := by
  unfold triggerField at hx
  rw [parseTrigger_ok_iff] at hx
  cases ht : spec.trigger with
  | none =>
    rw [ht] at hx
    rw [show x = (.always, 0) from hx]
    rfl
  | some t =>
    rw [ht] at h hx
    simp only [Option.map_some, Option.toList_some, List.map_cons, List.map_nil, trimSpace_text h,
      List.find?_cons_of_pos (isTriggerSegment_text h)] at hx
    exact triggerOf_text h hx

/-! ## Reading the text -/

theorem parseProbability_ok {p : F} (h : parseProbability lib raw text = .ok p) :
    ∃ f, lib.parseFloat (if (trimSpace text).getLast? = some percentSign then
      (trimSpace text).dropLast else trimSpace text) = .ok f ∧ p = lib.percent f := by
  unfold parseProbability at h
  dsimp only at h
  split at h
  · cases h
  · split at h
    · cases h
    · cases h
      exact ⟨_, ‹_›, rfl⟩

/-- The parser reads the probability that is meant, exactly where there is the sign or percent
makes no difference. -/
theorem probability_meant_iff {p : F} (h : parseProbability lib raw text = .ok p) :
    probabilityMeant lib text = some p ↔ (trimSpace text).getLast? = some percentSign ∨
      ∀ f, lib.parseFloat (trimSpace text) = .ok f → lib.percent f = f := by
  obtain ⟨f, hf, rfl⟩ := parseProbability_ok h
  unfold probabilityMeant
  dsimp only
  by_cases hs : (trimSpace text).getLast? = some percentSign
  · rw [if_pos hs] at hf
    simp [hs, hf, Except.toOption]
  · rw [if_neg hs] at hf
    simp [hs, hf, Except.toOption, eq_comm]

theorem parseDelayRule_fields {duration probability : Bytes}
    (h : parseDelayRule lib raw name (duration :: probability :: rest) = .ok rule) :
    rule.syscall = name ∧ rule.action = .delay ∧
      lib.parseDuration (trimSpace duration) = .ok rule.delay ∧
      parseProbability lib raw probability = .ok rule.probability := by
  unfold parseDelayRule at h
  dsimp only at h
  split at h
  · cases h
  · split at h
    · cases h
    · split at h
      · cases h
      · split at h
        · cases h
        · cases h
          exact ⟨rfl, rfl, ‹_›, ‹_›⟩

theorem parseDenyRule_fields {errno probability : Bytes}
    (h : parseDenyRule lib raw name (errno :: probability :: rest) = .ok rule) :
    rule.syscall = name ∧ rule.action = .deny ∧
      errnoByName (trimSpace errno) = some rule.errno ∧
      parseProbability lib raw probability = .ok rule.probability := by
  unfold parseDenyRule at h
  dsimp only at h
  split at h
  · cases h
  · split at h
    · cases h
    · split at h
      · cases h
      · cases h
        exact ⟨rfl, rfl, ‹_›, ‹_›⟩

theorem triggerField_plain (h : triggerMeant spec.trigger ≠ none) :
    ∀ field ∈ triggerField spec, colon ∉ field := by
  intro field hf
  unfold triggerField at hf
  cases ht : spec.trigger with
  | none => simp [ht] at hf
  | some t =>
    rw [ht] at hf h
    rw [List.mem_singleton.mp hf]
    exact colon_notMem_text h

/-- The first segment behind the syscall says how the others are read. -/
theorem parse_segments (hraw : spec.raw = []) (hs : KnownSyscall spec.syscall)
    {action first : Bytes}
    (hsegs : splitN colon 5 ([colon].intercalate (fieldsOf spec)) = action :: first :: rest) :
    parseFaultRule lib (toRuleString spec) =
      if (trimSpace action).map lower = delayText then
        parseDelayRule lib (toRuleString spec) spec.syscall (first :: rest)
      else parseDenyRule lib (toRuleString spec) spec.syscall (action :: first :: rest) := by
  obtain ⟨heq, htrim, hne⟩ := syscall_plain hs
  have hcut : splitN equals 2 (toRuleString spec) =
      [spec.syscall, [colon].intercalate (fieldsOf spec)] := by
    rw [toRuleString_eq hraw, splitN_cut heq]
    rfl
  unfold parseFaultRule
  simp only [hcut, htrim, hne, if_false, hsegs]
  rfl

theorem lower_delayText : (trimSpace delayText).map lower = delayText := by decide

theorem delay_segments (ha : spec.action = delayText) (hdelay : colon ∉ spec.delay)
    (hprob : colon ∉ spec.probability) (htrigger : triggerMeant spec.trigger ≠ none) :
    splitN colon 5 ([colon].intercalate (fieldsOf spec)) =
      delayText :: spec.delay :: spec.probability :: triggerField spec := by
  have hlen := length_triggerField spec
  rw [fieldsOf, if_pos ha, List.cons_append, List.cons_append, List.cons_append, List.nil_append]
  refine splitN_intercalate (List.cons_ne_nil _ _) ?_ ?_
  · simp only [List.forall_mem_cons]
    exact ⟨by decide, hdelay, hprob, triggerField_plain htrigger⟩
  · simp
    omega

/-- The segments behind the probability of a deny. -/
def tailSegments (spec : FaultSpec) : List Bytes :=
  if pathField spec ++ triggerField spec = [] then []
  else splitN colon 3 ([colon].intercalate (pathField spec ++ triggerField spec))

theorem deny_segments (ha : spec.action ≠ delayText) (herrno : colon ∉ errnoOf spec)
    (hprob : colon ∉ spec.probability) :
    splitN colon 5 ([colon].intercalate (fieldsOf spec)) =
      errnoOf spec :: spec.probability :: tailSegments spec := by
  rw [fieldsOf, if_neg ha, List.append_assoc, List.cons_append, List.cons_append, List.nil_append,
    tailSegments]
  generalize pathField spec ++ triggerField spec = more
  rw [List.intercalate_cons_cons, List.append_assoc, List.singleton_append, splitN_cut herrno]
  cases more with
  | nil =>
    rw [List.intercalate_singleton, splitN_last hprob]
    rfl
  | cons m more =>
    rw [List.intercalate_cons_cons, List.append_assoc, List.singleton_append, splitN_cut hprob,
      if_neg (List.cons_ne_nil m more)]

theorem tailSegments_eq (hpath : colon ∉ spec.pathGlob)
    (htrigger : triggerMeant spec.trigger ≠ none) :
    tailSegments spec = pathField spec ++ triggerField spec := by
  have hlen := length_triggerField spec
  unfold tailSegments
  split
  · symm
    assumption
  · refine splitN_intercalate ‹_› ?_ ?_
    · rw [List.forall_mem_append]
      refine ⟨fun field hf => ?_, triggerField_plain htrigger⟩
      unfold pathField at hf
      split at hf
      · cases hf
      · exact List.mem_singleton.mp hf ▸ hpath
    · unfold pathField
      split <;> simp <;> omega

/-- The loop over the last segments of a deny finds the path and the trigger. -/
theorem segments_sorted (h : Fitting lib spec) :
    ((pathField spec ++ triggerField spec).foldl sortSegment ([], [])).1 = spec.pathGlob ∧
      ((pathField spec ++ triggerField spec).map trimSpace).filter isTriggerSegment =
        triggerField spec := by
  obtain ⟨-, htrim, hseg⟩ := h.path
  have htrigger : ∀ t, spec.trigger = some t →
      trimSpace t.text = t.text ∧ isTriggerSegment t.text = true := by
    intro t ht
    have hne := h.trigger
    rw [ht] at hne
    exact ⟨trimSpace_text hne, isTriggerSegment_text hne⟩
  unfold pathField triggerField
  by_cases hp : spec.pathGlob = []
  · cases ht : spec.trigger with
    | none => simp [hp]
    | some t => simp [hp, sortSegment, htrigger t ht]
  · cases ht : spec.trigger with
    | none => simp [hp, sortSegment, htrim, hseg]
    | some t => simp [hp, sortSegment, htrim, hseg, htrigger t ht]

theorem Fitting.means (hraw : spec.raw = []) (hs : KnownSyscall spec.syscall)
    (h : Fitting lib spec) (hp : parseFaultRule lib (toRuleString spec) = .ok rule) :
    Means lib spec rule := by
  by_cases ha : spec.action = delayText
  · rw [parse_segments hraw hs (delay_segments ha (h.delay ha).1 h.probability h.trigger),
      if_pos lower_delayText] at hp
    obtain ⟨hsys, hact, hdel, hprob⟩ := parseDelayRule_fields hp
    obtain ⟨hpath, htrig⟩ := parseDelayRule_ok hp
    exact {
      syscall := hsys
      action := by simp [actionOf, ha, hact]
      errno := fun hd => by rw [hact] at hd; cases hd
      delay := fun _ => hdel
      probability := (probability_meant_iff hprob).mpr h.percent
      path := hpath.trans (h.delay ha).2.symm
      trigger := trigger_read h.trigger _ htrig }
  · rw [parse_segments hraw hs (deny_segments ha (h.errno ha).1 h.probability),
      if_neg (h.errno ha).2, tailSegments_eq h.path.1 h.trigger] at hp
    obtain ⟨hsys, hact, herr, hprob⟩ := parseDenyRule_fields hp
    obtain ⟨hpath, htrig⟩ := parseDenyRule_ok hp
    obtain ⟨hglob, hone⟩ := segments_sorted h
    rw [List.drop_succ_cons, List.drop_succ_cons, List.drop_zero] at hpath htrig
    rw [hone] at htrig
    exact {
      syscall := hsys
      action := by
        have hany := h.action
        unfold actionOf at hany ⊢
        rw [if_neg ha] at hany ⊢
        split at hany
        · rw [if_pos ‹_›, hact]
        · exact absurd rfl hany
      errno := fun _ => herr
      delay := fun hd => by rw [hact] at hd; cases hd
      probability := (probability_meant_iff hprob).mpr h.percent
      path := hpath.trans hglob
      trigger := trigger_read h.trigger _ htrig }

/-! ## Fields that come back -/

theorem colon_notMem_of_trim (h : colon ∉ trimSpace s) : colon ∉ s := by
  have hblank : ∀ b, Blanks b → colon ∉ b :=
    fun b hb hc => absurd (hb.mem hc) (by decide)
  obtain ⟨l, r, hs, hl, hr⟩ := exists_trimSpace s
  rw [hs]
  simp [h, hblank l hl, hblank r hr]

theorem colon_mem_upperText (h : colon ∈ s) : colon ∈ upperText s := by
  have hup : upper colon = colon := by decide
  fun_induction upperText s with
  | case1 rest ih => exact List.mem_cons_of_mem _ (ih (by simpa [colon] using h))
  | case2 rest ih => exact List.mem_cons_of_mem _ (ih (by simpa [colon] using h))
  | case3 c rest _ _ ih =>
    rcases List.mem_cons.mp h with rfl | hc
    · rw [hup]
      exact List.mem_cons_self
    · exact List.mem_cons_of_mem _ (ih hc)
  | case4 => exact h

theorem colon_notMem_errno {n : Nat} (h : errnoByName name = some n) :
    colon ∉ name := by
  have htable : ∀ e ∈ syscall_faults.errnoMap, colon ∉ bytes e.1 := by decide
  obtain ⟨e, he, -⟩ := Option.map_eq_some_iff.mp h
  have hname := List.find?_some he
  simp only [beq_iff_eq] at hname
  intro hc
  exact htable e (List.mem_of_find?_eq_some he) (hname ▸ colon_mem_upperText hc)

theorem colon_notMem_probability (hlib : Colonless lib) {p : F}
    (h : probabilityMeant lib text = some p) : colon ∉ text := by
  apply colon_notMem_of_trim
  unfold probabilityMeant at h
  dsimp only at h
  split at h
  · rename_i hs
    cases hf : lib.parseFloat (trimSpace text).dropLast with
    | error e => simp [hf, Except.toOption] at h
    | ok f =>
      obtain ⟨t, ht⟩ := List.getLast?_eq_some_iff.mp hs
      have hno := hlib.float _ f hf
      rw [ht, List.dropLast_concat] at hno
      rw [ht, List.mem_append, List.mem_singleton]
      exact fun hc => hc.elim hno (by decide)
  · cases hf : lib.parseFloat (trimSpace text) with
    | error e => simp [hf, Except.toOption] at h
    | ok f => exact hlib.float _ f hf

/-- A piece has fewer separators than the text, by the cuts. -/
theorem count_of_mem_splitN {sep : UInt8} {n : Nat} {piece : Bytes}
    (h : piece ∈ splitN sep (n + 1) s) : piece.count sep + min n (s.count sep) ≤ s.count sep := by
  induction n generalizing s with
  | zero =>
    rw [List.mem_singleton.mp h]
    omega
  | succ n ih =>
    by_cases hmem : sep ∈ s
    · obtain ⟨a, b, rfl, ha⟩ := List.eq_append_cons_of_mem hmem
      rw [splitN_cut ha] at h
      rw [List.count_append, List.count_cons_self, List.count_eq_zero_of_not_mem ha]
      rcases List.mem_cons.mp h with rfl | h
      · rw [List.count_eq_zero_of_not_mem ha]
        omega
      · have hb := ih h
        omega
    · rw [splitN_last hmem, List.mem_singleton] at h
      rw [h, List.count_eq_zero_of_not_mem hmem]
      omega

theorem count_trimSpace_le (s : Bytes) : (trimSpace s).count colon ≤ s.count colon := by
  obtain ⟨l, r, hs, -⟩ := exists_trimSpace s
  conv_rhs => rw [hs, List.count_append, List.count_append]
  omega

/-- A path with a colon comes apart, so none of its pieces is the path. -/
theorem path_read {more : List Bytes} (hmore : ∀ m ∈ more, colon ∉ m) (hone : more.length ≤ 1)
    {path : Bytes}
    (h : ((splitN colon 3 ([colon].intercalate (path :: more))).foldl sortSegment ([], [])).1 =
      path) :
    colon ∉ path ∧ trimSpace path = path ∧ isTriggerSegment path = false := by
  rcases path_foldl (splitN colon 3 ([colon].intercalate (path :: more))) ([], []) with
    ⟨-, hnil⟩ | ⟨hmem, hseg⟩
  · rw [← h, hnil]
    decide
  · rw [h] at hmem hseg
    obtain ⟨seg, hin, hpath⟩ := List.mem_map.mp (List.mem_filter.mp hmem).1
    refine ⟨?_, by rw [← hpath, trimSpace_trimSpace], hseg⟩
    intro hc
    have hpos := List.count_pos_iff.mpr hc
    have hcut := count_of_mem_splitN hin
    have htrim := count_trimSpace_le seg
    rw [hpath] at htrim
    match more with
    | [] =>
      rw [List.intercalate_singleton] at hcut
      omega
    | [m] =>
      rw [List.intercalate_cons_cons, List.intercalate_singleton, List.count_append,
        List.count_append, List.count_singleton_self,
        List.count_eq_zero_of_not_mem (hmore m List.mem_cons_self)] at hcut
      omega
    | _ :: _ :: _ => simp at hone

theorem parseDelayRule_action {segs : List Bytes} (h : parseDelayRule lib raw name segs = .ok rule)
    : rule.action = .delay := by
  match segs with
  | _ :: _ :: _ => exact (parseDelayRule_fields h).2.1
  | [] => cases h
  | [_] => cases h

theorem Means.fitting (hlib : Colonless lib) (hraw : spec.raw = [])
    (hs : KnownSyscall spec.syscall)
    (hp : parseFaultRule lib (toRuleString spec) = .ok rule) (h : Means lib spec rule) :
    Fitting lib spec := by
  have hprob := colon_notMem_probability hlib h.probability
  have htrigger : triggerMeant spec.trigger ≠ none := by
    rw [h.trigger]
    exact Option.some_ne_none _
  have haction : actionOf spec.action ≠ none := by
    rw [h.action]
    exact Option.some_ne_none _
  by_cases ha : spec.action = delayText
  · have hact : rule.action = .delay := by
      have hmeant := h.action
      rw [actionOf, if_pos ha] at hmeant
      exact (Option.some.inj hmeant).symm
    have hdel := colon_notMem_of_trim (hlib.duration _ _ (h.delay hact))
    rw [parse_segments hraw hs (delay_segments ha hdel hprob htrigger),
      if_pos lower_delayText] at hp
    have hpath := h.path.symm.trans (parseDelayRule_ok hp).1
    refine ⟨haction, fun _ => ⟨hdel, hpath⟩, fun hne => absurd ha hne, hprob, ?_, ?_, htrigger⟩
    · exact (probability_meant_iff (parseDelayRule_fields hp).2.2.2).mp h.probability
    · rw [hpath]
      decide
  · have hact : rule.action = .deny := by
      have hmeant := h.action
      rw [actionOf, if_neg ha] at hmeant
      split at hmeant
      · exact (Option.some.inj hmeant).symm
      · cases hmeant
    have herr := colon_notMem_of_trim (colon_notMem_errno (h.errno hact))
    rw [parse_segments hraw hs (deny_segments ha herr hprob)] at hp
    split at hp
    · rw [parseDelayRule_action hp] at hact
      cases hact
    · rename_i hdelay
      refine ⟨haction, fun hd => absurd hd ha, fun _ => ⟨herr, hdelay⟩, hprob, ?_, ?_, htrigger⟩
      · exact (probability_meant_iff (parseDenyRule_fields hp).2.2.2).mp h.probability
      · by_cases hnil : spec.pathGlob = []
        · rw [hnil]
          decide
        · have hpath := h.path.symm.trans (parseDenyRule_ok hp).1
          simp only [tailSegments, pathField, hnil, if_false, List.singleton_append,
            List.drop_succ_cons, List.drop_zero, reduceCtorEq] at hpath
          exact path_read (triggerField_plain htrigger) (length_triggerField spec) hpath.symm

end law

/-- The library on whole numbers of percent and on one duration. -/
def wholeLib : Lib Nat where
  quote := id
  parseDuration s := if s = bytes "200ms" then .ok 200000000 else .error s
  parseFloat s := match digitsValue s with
    | some n => .ok n
    | none => .error s
  percent p := p
  outOfRange p := decide (100 < p)

theorem wholeLib_colonless : Colonless wholeLib where
  duration := by
    intro s d h
    simp only [wholeLib] at h
    split at h
    · rename_i hs
      rw [hs]
      decide
    · cases h
  float := by
    intro s f h hc
    simp only [wholeLib, digitsValue] at h
    split at h
    · rename_i hd
      split at hd
      · rename_i hall
        exact absurd (List.all_eq_true.mp hall.2 colon hc) (by decide)
      · cases hd
    · cases h

theorem fits_three : Fits 3 := by decide

/-- An object with all its fields that fits. -/
def openSpec : FaultSpec :=
  ⟨[], bytes "openat", bytes "deny", bytes "ENOENT", [], bytes "100%", bytes "/data/*",
    some ⟨bytes "nth", 3, fits_three⟩⟩

/-- A delay for some paths only. -/
def slowSpec : FaultSpec :=
  ⟨[], bytes "write", bytes "delay", [], bytes "200ms", bytes "100%", bytes "/data/*", none⟩

end faultbox.fault_specs
