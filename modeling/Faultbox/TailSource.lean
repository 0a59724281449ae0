-- The tail source: at a write notification it scans what was appended to the file. The law: every
-- complete line gets one event, and no line gets one before its newline. The scanner reports the
-- end of the file once and never reads again, so the law holds exactly where the text that the
-- first notification finds is all there is to deliver, and ends with a newline.
import Faultbox.StdoutPipes
import Faultbox.GoValues

open goval faultbox.stdout_observe

namespace faultbox.tail_source

abbrev Text := List UInt8

/-! ## The source -/

/-- `tailSource`; a decoder can fail. -/
structure Source where
  path : Text
  decode : Option (Text → Option (GoMap String Text))

/-- The event of a line. -/
def Source.event (src : Source) (line : Text) : GoMap String Text :=
  let raw : GoMap String Text := ((∅ : GoMap String Text).insert "raw" line).insert "path" src.path
  match src.decode with
  | none => raw
  | some decode =>
    match decode line with
    | none => raw
    | some fields => fields.insert "path" src.path

/-- The lines of `Scan`, up to the end of the file. -/
def scanAll (unread : Text) : List Text :=
  match _h : scanLines unread true with
  | none => []
  | some (line, rest) => dropCR line :: scanAll rest
termination_by unread.length
decreasing_by
  rcases scanLines_some _h with ⟨-, rfl⟩ | ⟨-, -, hne, -, rfl⟩
  · simp
    omega
  · exact List.length_pos_iff.mpr hne

/-- The file behind the offset of the source, whether the scanner has reported the end of the file,
and the events. -/
structure State where
  unread : Text
  ended : Bool
  events : List (GoMap String Text)

def start : State := ⟨[], false, []⟩

inductive Act where
  | append (text : Text)
  | notify
deriving DecidableEq

/-- The loop over `Scan` at a notification passes over empty lines. -/
def step (src : Source) (s : State) : Act → State
  | .append text => { s with unread := s.unread ++ text }
  | .notify =>
    if s.ended then s
    else ⟨[], true, s.events ++ ((scanAll s.unread).filter (· ≠ [])).map src.event⟩

def after (src : Source) (acts : List Act) : State := acts.foldl (step src) start

/-! ## What is to deliver -/

def Act.text : Act → Text
  | .append text => text
  | .notify => []

def written (acts : List Act) : Text := acts.flatMap Act.text

/-- The texts of the lines whose newline is written, empty ones left out. -/
def complete (text : Text) : List Text :=
  ((text.splitOn newline).dropLast.map dropCR).filter (· ≠ [])

/-- The line whose newline is still to come. -/
def openLine (text : Text) : Text := (text.splitOn newline).getLastD []

/-- Every append is followed by a notification. -/
def Notified (acts : List Act) : Prop :=
  ∀ pre text post, acts = pre ++ .append text :: post → .notify ∈ post

/-- At the end every complete line has its event, and at no time is there another one. -/
def Delivers (src : Source) (acts : List Act) : Prop :=
  (after src acts).events = (complete (written acts)).map src.event ∧
    ∀ pre, pre <+: acts → (after src pre).events <+: (complete (written pre)).map src.event

/-- The text that the first notification finds. -/
def early (acts : List Act) : Text := written (acts.takeWhile (· ≠ .notify))

/-! ## Lines -/

theorem splitOn_ne_nil (text : Text) : text.splitOn newline ≠ [] := List.splitOnP_ne_nil _ _

theorem dropLast_splitOn {line rest : Text} (h : newline ∉ line) :
    ((line ++ newline :: rest).splitOn newline).dropLast =
      line :: (rest.splitOn newline).dropLast := by
  rw [List.splitOn_append_cons_self_of_not_mem h, List.dropLast_cons_of_ne_nil (splitOn_ne_nil _)]

theorem scanAll_eq (text : Text) :
    (scanAll text).filter (· ≠ []) = ((text.splitOn newline).map dropCR).filter (· ≠ []) := by
  induction hlen : text.length using Nat.strongRecOn generalizing text with
  | ind len ih =>
    rw [scanAll]
    split
    · rename_i h
      rw [(scanLines_none h).2 rfl]
      rfl
    · rename_i line rest h
      rcases scanLines_some h with ⟨hnot, rfl⟩ | ⟨-, hnot, -, rfl, rfl⟩
      · rw [List.splitOn_append_cons_self_of_not_mem hnot, List.map_cons, List.filter_cons,
          List.filter_cons, ih rest.length (by simp at hlen; omega) rest rfl]
      · rw [List.splitOn_eq_singleton hnot]
        simp [scanAll, scanLines]

/-- A scan to the end takes the complete lines, and the open one. -/
theorem scanAll_complete (text : Text) :
    (scanAll text).filter (· ≠ []) =
      complete text ++ [dropCR (openLine text)].filter (· ≠ []) := by
  have hlast : text.splitOn newline = (text.splitOn newline).dropLast ++ [openLine text] := by
    rw [openLine, List.getLastD_eq_getLast?, List.getLast?_eq_getLast_of_ne_nil (splitOn_ne_nil _)]
    exact (List.dropLast_append_getLast _).symm
  rw [scanAll_eq, hlast, List.map_append, List.filter_append, complete]
  simp

theorem complete_append (text more : Text) : complete text <+: complete (text ++ more) := by
  have hlines : (text.splitOn newline).dropLast <+: ((text ++ more).splitOn newline).dropLast := by
    induction hlen : text.length using Nat.strongRecOn generalizing text with
    | ind len ih =>
      by_cases hmem : newline ∈ text
      · obtain ⟨line, rest, rfl, hnot⟩ := List.eq_append_cons_of_mem hmem
        rw [List.append_assoc, List.cons_append, dropLast_splitOn hnot, dropLast_splitOn hnot,
          List.prefix_cons_inj]
        exact ih rest.length (by simp at hlen; omega) rest rfl
      · rw [List.splitOn_eq_singleton hmem]
        exact List.nil_prefix
  exact (hlines.map _).filter _

/-! ## Runs -/

theorem foldl_ended (src : Source) {s : State} (h : s.ended = true) (acts : List Act) :
    (acts.foldl (step src) s).events = s.events := by
  induction acts generalizing s with
  | nil => rfl
  | cons a acts ih =>
    cases a with
    | append text => exact ih h
    | notify =>
      rw [List.foldl_cons, step, if_pos h]
      exact ih h

/-- Only the first notification emits. -/
theorem after_events (src : Source) (acts : List Act) :
    (after src acts).events =
      if .notify ∈ acts then ((scanAll (early acts)).filter (· ≠ [])).map src.event else [] := by
  have hrun : ∀ (unread : Text), (acts.foldl (step src) ⟨unread, false, []⟩).events =
      if .notify ∈ acts then
        ((scanAll (unread ++ early acts)).filter (· ≠ [])).map src.event else [] := by
    induction acts with
    | nil => simp
    | cons a acts ih =>
      intro unread
      cases a with
      | append text =>
        rw [List.foldl_cons, step, ih]
        simp [early, written, Act.text]
      | notify =>
        rw [List.foldl_cons, step, if_neg Bool.false_ne_true, foldl_ended src rfl]
        simp [early, written]
  exact hrun []

theorem early_split {pre : List Act} (h : .notify ∉ pre) (post : List Act) :
    early (pre ++ .notify :: post) = written pre := by
  have hpre : ∀ a ∈ pre, decide (a ≠ .notify) = true := fun a ha =>
    decide_eq_true fun heq => h (heq ▸ ha)
  rw [early, List.takeWhile_append_of_pos hpre, List.takeWhile_cons_of_neg (by simp),
    List.append_nil]

theorem after_split (src : Source) {pre : List Act} (h : .notify ∉ pre) (post : List Act) :
    (after src (pre ++ .notify :: post)).events = (complete (written pre) ++
      [dropCR (openLine (written pre))].filter (· ≠ [])).map src.event := by
  rw [after_events, if_pos (by simp), early_split h, scanAll_complete]

theorem written_append (acts more : List Act) :
    written (acts ++ more) = written acts ++ written more := List.flatMap_append

theorem eq_nil_of_notified {acts : List Act} (h : Notified acts) (hmem : .notify ∉ acts) :
    acts = [] := by
  cases acts with
  | nil => rfl
  | cons a acts =>
    cases a with
    | append text => exact absurd (List.mem_cons_of_mem _ (h [] text acts rfl)) hmem
    | notify => exact absurd List.mem_cons_self hmem

theorem Delivers.facts {src : Source} {p q : List Act} (hnot : .notify ∉ p)
    (h : Delivers src (p ++ .notify :: q)) : dropCR (openLine (written p)) = [] ∧
      complete (written (p ++ .notify :: q)) = complete (written p) := by
  obtain ⟨hall, htimes⟩ := h
  have hfirst := (htimes (p ++ [.notify]) ⟨q, by simp⟩).length_le
  rw [after_split src hnot] at hall hfirst
  have hopen : dropCR (openLine (written p)) = [] := by
    simpa [written, Act.text] using hfirst
  refine ⟨hopen, (List.IsPrefix.eq_of_length ?_ ?_).symm⟩
  · rw [written_append]
    exact complete_append _ _
  · simpa [hopen] using congrArg List.length hall

/-- Tailing delivers exactly where the first notification finds no text in an open line, and no
complete line comes after it. -/
theorem delivers_iff (src : Source) (acts : List Act) (h : Notified acts) :
    Delivers src acts ↔ dropCR (openLine (early acts)) = [] ∧
      complete (written acts) = complete (early acts) := by
  by_cases hmem : .notify ∈ acts
  · obtain ⟨pre, post, rfl, hnot⟩ := List.eq_append_cons_of_mem hmem
    rw [early_split hnot]
    refine ⟨Delivers.facts hnot, fun ⟨hopen, heq⟩ => ⟨?_, fun acts hacts => ?_⟩⟩
    · rw [after_split src hnot, heq, hopen]
      simp
    · by_cases hin : .notify ∈ acts
      · -- the first notification of the beginning is that of the whole run
        obtain ⟨pre', post', rfl, hnot'⟩ := List.eq_append_cons_of_mem hin
        obtain ⟨rest, hrest⟩ := hacts
        have hsame := early_split hnot' (post' ++ rest)
        rw [← List.cons_append, ← List.append_assoc, hrest, early_split hnot] at hsame
        rw [after_split src hnot', ← hsame, hopen, written_append, ← hsame]
        simpa using (complete_append _ _).map src.event
      · rw [after_events, if_neg hin]
        exact List.nil_prefix
  · obtain rfl := eq_nil_of_notified h hmem
    refine ⟨fun _ => ⟨rfl, rfl⟩, fun _ => ⟨rfl, fun pre hpre => ?_⟩⟩
    rw [List.prefix_nil.mp hpre]
    exact List.nil_prefix

def plain : Source := ⟨[], none⟩

/-- One line, and its notification. -/
theorem single_line_is_delivered :
    Delivers plain [.append [97, newline], .notify] := by
  refine (delivers_iff plain _ ?_).mpr (by decide)
  rintro pre text post heq
  rcases pre with _ | ⟨a, _ | ⟨b, pre⟩⟩ <;> simp at heq
  rw [← heq.2]
  exact List.mem_cons_self

/-- The second line comes after the first notification, and has no event; an open line has one
before its newline. -/
theorem second_line_is_lost :
    ¬ Delivers plain [.append [97, newline], .notify, .append [98, newline], .notify] ∧
      ¬ Delivers plain [.append [97], .notify, .append [newline], .notify] := by
  refine ⟨fun h => ?_, fun h => ?_⟩
  · have hlines := (Delivers.facts (p := [.append [97, newline]]) (by decide) h).2
    exact absurd hlines (by decide)
  · have hopen := (Delivers.facts (p := [.append [97]]) (by decide) h).1
    exact absurd hopen (by decide)

end faultbox.tail_source
