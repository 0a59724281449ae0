-- The normalized trace of a suite: for each test the lines of each service, the services sorted.
-- The law: the interleaving of the services, the inode numbers of pipes and sockets, and the
-- allowed calls on anonymous descriptors do not show. The filter looks at the path before the
-- inode number is cut off, so the law holds for all but the calls on numbered pipes and sockets.
import Faultbox.EventLog

open goval faultbox.event_log

namespace faultbox.trace_noise

/-! ## NormalizeTrace -/

/-- A path `kind:[n]`. -/
def isNumbered (kind path : String) : Bool :=
  let rest := path.toList.drop (kind ++ ":[").length
  hasPrefix path (kind ++ ":[") && rest.getLast? = some ']' && rest.dropLast ≠ [] &&
    rest.dropLast.all Char.isDigit

def socketRe (path : String) : Bool :=
  isNumbered "socket" path || isNumbered "pipe" path || isNumbered "anon_inode" path

def normalizePath (path : String) : String :=
  if socketRe path then String.ofList (path.toList.takeWhile (· ≠ ':')) else path

def syscallLine (ev : Event) : Option String :=
  let decision := ev.field "decision"
  let path := ev.field "path"
  if (decision = "allow" ∨ decision = "allow (system path)") ∧ path = "" then none
  else if decision = "allow (system path)" then none
  else if decision = "allow" ∧ (hasPrefix path "anon_inode:" ∨ path = "pipe" ∨ path = "socket" ∨
      path = "/dev/null") then none
  else some (ev.field "syscall" ++ " " ++ decision ++
    if normalizePath path = "" then "" else " " ++ normalizePath path)

/-- The line of an event; an event without one is skipped. -/
def lineOf (ev : Event) : Option String :=
  match ev.type with
  | "syscall" => syscallLine ev
  | "service_started" | "service_ready" | "fault_applied" | "fault_removed" => some ev.type
  | "step_send" | "step_recv" => some (ev.type ++ " " ++ ev.field "target")
  | "client_call" | "client_return" | "contract_violation" =>
    some (ev.type ++ " " ++ ev.field "target" ++ " " ++ ev.field "operation")
  | "unmediated_io" =>
    some ("unmediated_io " ++ ev.field "category" ++ " " ++ ev.field "syscall")
  | _ => none

def serviceOf (ev : Event) : String := if ev.service = "" then "test" else ev.service

def addLine (perService : GoMap String (List String)) (ev : Event) : GoMap String (List String) :=
  match lineOf ev with
  | none => perService
  | some line =>
    perService.insert (serviceOf ev) ((perService.lookup (serviceOf ev)).getD [] ++ [line])

structure TestResult where
  name : String
  events : List Event

def normalizeTest (order : MapOrder) (tr : TestResult) : String :=
  let perService := tr.events.foldl addLine ∅
  let services := sortStrings (order.order perService.keys)
  "=== " ++ tr.name ++ " ===\n" ++ String.join (services.map fun svc =>
    "--- " ++ svc ++ " ---\n" ++ String.join (((perService.lookup svc).getD []).map (· ++ "\n")))

def normalizeTrace (order : MapOrder) (tests : List TestResult) : String :=
  String.join (tests.map (normalizeTest order))

/-! ## Noise -/

/-- An allowed call on an anonymous pipe, socket or anon_inode descriptor. -/
def noise (ev : Event) : Bool :=
  ev.type = "syscall" && ["allow", "allow (system path)"].contains (ev.field "decision") &&
    (hasPrefix (ev.field "path") "anon_inode:" || ["pipe", "socket"].any fun kind =>
      ev.field "path" = kind || isNumbered kind (ev.field "path"))

/-- The noise that shows: its path has an inode number to cut off behind the filter. -/
def loud (ev : Event) : Bool :=
  ev.type = "syscall" && ev.field "decision" = "allow" && ["pipe", "socket"].any fun kind =>
    isNumbered kind (ev.field "path")

/-- The noise that the filter of the trace knows. -/
def quiet (ev : Event) : Bool := noise ev && !loud ev

def SamePath (p q : String) : Prop :=
  p = q ∨ ∃ kind ∈ ["pipe", "socket"], isNumbered kind p = true ∧ isNumbered kind q = true

/-- One event, up to the inode number; of two calls that are noise and show, only the syscall and
the kind of descriptor are compared. -/
structure SameEvent (ev ev' : Event) : Prop where
  type : ev.type = ev'.type
  service : serviceOf ev = serviceOf ev'
  syscall : ev.field "syscall" = ev'.field "syscall"
  fields : (loud ev && loud ev') = false → ∀ key ≠ "path", ev.field key = ev'.field key
  path : SamePath (ev.field "path") (ev'.field "path")

/-- The events of a service, less those that may come and go. -/
def told (skip : Event → Bool) (svc : String) (events : List Event) : List Event :=
  events.filter fun ev => serviceOf ev = svc && !skip ev

/-- The same tests, that differ in noise only. -/
def SameUpTo (skip : Event → Bool) (tests tests' : List TestResult) : Prop :=
  tests.Forall₂ (fun tr tr' => tr.name = tr'.name ∧
    ∀ svc, (told skip svc tr.events).Forall₂ SameEvent (told skip svc tr'.events)) tests'

/-! ## Paths -/

theorem numbered_facts {kind p : String} (hk : kind ∈ ["pipe", "socket"])
    (h : isNumbered kind p = true) : normalizePath p = kind ∧ p ≠ "" ∧
      hasPrefix p "anon_inode:" = false ∧ p ∉ ["pipe", "socket", "/dev/null"] := by
  have hre : socketRe p = true := by
    rcases List.mem_cons.mp hk with rfl | hk
    · simp [socketRe, h]
    · rw [List.mem_singleton.mp hk] at h
      simp [socketRe, h]
  simp only [isNumbered, hasPrefix, Bool.and_eq_true] at h
  obtain ⟨rest, hrest⟩ := List.isPrefixOf_iff_prefix.mp h.1.1.1
  rw [normalizePath, if_pos hre, hasPrefix, ← hrest]
  simp only [List.mem_cons, List.not_mem_nil, or_false] at hk
  rcases hk with rfl | rfl
  all_goals
    refine ⟨by simp, ?_, by simp [List.isPrefixOf], ?_⟩
    · rintro rfl
      simp at hrest
    · simp only [List.mem_cons, List.not_mem_nil, or_false]
      rintro (rfl | rfl | rfl) <;> simp at hrest

theorem syscallLine_eq {ev ev' : Event} (h : SameEvent ev ev')
    (hd : ev.field "decision" = ev'.field "decision") : syscallLine ev = syscallLine ev' := by
  rcases h.path with hp | ⟨kind, hk, hp, hp'⟩
  · simp only [syscallLine, hd, h.syscall, hp]
  · obtain ⟨hn, he, ha, hl⟩ := numbered_facts hk hp
    obtain ⟨hn', he', ha', hl'⟩ := numbered_facts hk hp'
    simp only [List.mem_cons, List.not_mem_nil, or_false, not_or] at hl hl'
    simp only [syscallLine, hd, h.syscall, hn, hn', he, he', ha, ha', hl, hl']

theorem lineOf_eq {ev ev' : Event} (h : SameEvent ev ev') : lineOf ev = lineOf ev' := by
  cases hl : loud ev && loud ev' with
  | false =>
    have hf := h.fields hl
    simp only [lineOf, h.type, syscallLine_eq h (hf "decision" (by decide)), h.syscall,
      hf "target" (by decide), hf "operation" (by decide), hf "category" (by decide)]
  | true =>
    simp only [loud, Bool.and_eq_true, decide_eq_true_eq] at hl
    obtain ⟨⟨⟨ht, hd⟩, -⟩, ⟨ht', hd'⟩, -⟩ := hl
    simp only [lineOf, ht, ht', syscallLine_eq h (hd.trans hd'.symm)]

theorem lineOf_quiet {ev : Event} (h : quiet ev = true) : lineOf ev = none := by
  simp only [quiet, loud, noise, List.contains_eq_mem, List.mem_cons, List.not_mem_nil, or_false,
    List.any_cons, List.any_nil, Bool.or_false, Bool.and_eq_true, decide_eq_true_eq,
    Bool.not_eq_true', Bool.and_eq_false_imp] at h
  obtain ⟨⟨⟨ht, hd⟩, hp⟩, hn⟩ := h
  simp only [lineOf, ht, syscallLine]
  rcases hd with hd | hd
  · obtain ⟨hpipe, hsocket⟩ := Bool.or_eq_false_iff.mp (hn ⟨ht, hd⟩)
    simp only [hpipe, hsocket, Bool.or_false, Bool.or_eq_true, decide_eq_true_eq] at hp
    rcases hp with hp | hp | hp <;> simp [hd, hp]
  · simp [hd]

/-! ## The lines of a service -/

def linesOf (svc : String) (events : List Event) : List String :=
  (events.filter (serviceOf · = svc)).filterMap lineOf

theorem linesOf_told (svc : String) (events : List Event) :
    linesOf svc events = (told quiet svc events).filterMap lineOf := by
  induction events with
  | nil => rfl
  | cons ev events ih =>
    simp only [linesOf, told, List.filter_cons] at ih ⊢
    by_cases hs : serviceOf ev = svc
    · cases hq : quiet ev with
      | true => simp [hs, lineOf_quiet hq, ih]
      | false => simp [hs, List.filterMap_cons, ih]
    · simp [hs, ih]

theorem filterMap_lineOf {l l' : List Event} (h : l.Forall₂ SameEvent l') :
    l.filterMap lineOf = l'.filterMap lineOf := by
  induction h with
  | nil => rfl
  | cons he _ ih => rw [List.filterMap_cons, List.filterMap_cons, lineOf_eq he, ih]

theorem lookup_addLine (m : GoMap String (List String)) (ev : Event) (svc : String) :
    ((addLine m ev).lookup svc).getD [] = (m.lookup svc).getD [] ++ linesOf svc [ev] := by
  unfold addLine linesOf
  by_cases hs : serviceOf ev = svc
  · subst hs
    cases hl : lineOf ev with
    | none => simp [hl]
    | some line => simp [hl]
  · cases hl : lineOf ev with
    | none => simp [hs]
    | some line => simp [hs, AList.lookup_insert_ne (Ne.symm hs)]

theorem mem_addLine (m : GoMap String (List String)) (ev : Event) (svc : String) :
    svc ∈ addLine m ev ↔ svc ∈ m ∨ linesOf svc [ev] ≠ [] := by
  unfold addLine linesOf
  by_cases hs : serviceOf ev = svc
  · cases hl : lineOf ev with
    | none => simp [hs, hl]
    | some line => simp [hs, hl]
  · cases hl : lineOf ev with
    | none => simp [hs]
    | some line => simp [hs, Ne.symm hs]

theorem foldl_addLine (events : List Event) (m : GoMap String (List String)) (svc : String) :
    ((events.foldl addLine m).lookup svc).getD [] = (m.lookup svc).getD [] ++ linesOf svc events ∧
      (svc ∈ events.foldl addLine m ↔ svc ∈ m ∨ linesOf svc events ≠ []) := by
  induction events generalizing m with
  | nil => simp [linesOf]
  | cons ev events ih =>
    have hsplit : linesOf svc (ev :: events) = linesOf svc [ev] ++ linesOf svc events := by
      rw [linesOf, ← List.singleton_append, List.filter_append, List.filterMap_append]
      rfl
    rw [List.foldl_cons, (ih _).1, (ih _).2, lookup_addLine, mem_addLine, hsplit]
    simp [or_assoc, imp_iff_not_or]

theorem normalizeTest_congr (order order' : MapOrder) {tr tr' : TestResult}
    (hn : tr.name = tr'.name) (h : ∀ svc, linesOf svc tr.events = linesOf svc tr'.events) :
    normalizeTest order tr = normalizeTest order' tr' := by
  have hlook : ∀ svc, ((tr.events.foldl addLine ∅).lookup svc).getD [] =
      ((tr'.events.foldl addLine ∅).lookup svc).getD [] := by
    intro svc
    rw [(foldl_addLine _ _ svc).1, (foldl_addLine _ _ svc).1, h svc]
  have hkeys : (tr.events.foldl addLine ∅).keys.Perm (tr'.events.foldl addLine ∅).keys := by
    refine (List.perm_ext_iff_of_nodup (AList.keys_nodup _) (AList.keys_nodup _)).mpr fun svc => ?_
    rw [← AList.mem_keys, ← AList.mem_keys, (foldl_addLine _ _ svc).2, (foldl_addLine _ _ svc).2,
      h svc]
  have hsort : sortStrings _ = sortStrings _ := insertionSort_congr
    ((order.perm _).trans (hkeys.trans (order'.perm (tr'.events.foldl addLine ∅).keys).symm))
  simp only [normalizeTest, hn, hsort, hlook]

/-- Results that differ only in the interleaving of their services, in inode numbers, and in
allowed calls on anonymous descriptors other than numbered pipes and sockets, have one trace. -/
theorem noise_does_not_show (order order' : MapOrder) {tests tests' : List TestResult}
    (h : SameUpTo quiet tests tests') :
    normalizeTrace order tests = normalizeTrace order' tests' := by
  unfold normalizeTrace
  congr 1
  induction h with
  | nil => rfl
  | cons ht _ ih =>
    rw [List.map_cons, List.map_cons, ih, normalizeTest_congr order order' ht.1 fun svc => ?_]
    rw [linesOf_told, linesOf_told, filterMap_lineOf (ht.2 svc)]

def call (svc decision path : String) : Event :=
  ⟨0, "syscall", "", "", svc,
    (((∅ : GoMap String String).insert "decision" decision).insert "syscall" "read").insert
      "path" path, ∅⟩

theorem call_same (svc decision : String) {p q : String} (h : SamePath p q) :
    SameEvent (call svc decision p) (call svc decision q) := by
  have hfields : ∀ key ≠ "path",
      (call svc decision p).field key = (call svc decision q).field key := by
    intro key hk
    simp [call, Event.field, AList.lookup_insert_ne hk]
  exact ⟨rfl, rfl, hfields _ (by decide), fun _ => hfields,
    by simpa [call, Event.field] using h⟩

/-- Another order, another inode, and a call on an event descriptor. -/
theorem reordered_run_has_same_trace :
    normalizeTrace .asStored
        [⟨"t", [call "api" "deny(EIO)" "/data", call "db" "allow" "socket:[7]"]⟩] =
      normalizeTrace .asStored
        [⟨"t", [call "db" "allow" "socket:[8]", call "api" "allow" "anon_inode:[eventfd]",
          call "api" "deny(EIO)" "/data"]⟩] := by
  refine noise_does_not_show .asStored .asStored (.cons ⟨rfl, fun svc => ?_⟩ .nil)
  by_cases ha : svc = "api"
  · subst ha
    exact .cons (call_same _ _ (.inl rfl)) .nil
  · by_cases hd : svc = "db"
    · subst hd
      exact .cons (call_same _ _ (.inr ⟨"socket", by decide, by decide, by decide⟩)) .nil
    · simp [told, call, serviceOf, Ne.symm ha, Ne.symm hd]

/-- An allowed read of an anonymous pipe shows in the trace. -/
theorem numbered_pipe_shows :
    SameUpTo noise [⟨"t", []⟩] [⟨"t", [call "db" "allow" "pipe:[7]"]⟩] ∧
      normalizeTrace .asStored [⟨"t", []⟩] ≠
        normalizeTrace .asStored [⟨"t", [call "db" "allow" "pipe:[7]"]⟩] := by
  have hn : noise (call "db" "allow" "pipe:[7]") = true := by decide
  refine ⟨.cons ⟨rfl, fun svc => ?_⟩ .nil, by decide⟩
  simp [told, hn]

end faultbox.trace_noise
