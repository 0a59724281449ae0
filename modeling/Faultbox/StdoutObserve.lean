-- The observation of a service's stdout: every byte reaches the console, every line becomes
-- one event, and the service is never blocked behind a scanner that has stopped, exactly
-- when no line fills the buffer of the scanner.
import Faultbox.StdoutPipes

namespace faultbox.stdout_observe

/-! ## The observation of a stream -/

/-- No goroutine can go on, and the service cannot write. -/
def Quiet (setup : Setup) (s : State) : Prop := ∀ a, a ≠ .hangUp → step setup s a = none

/-- The service has bytes to write and the pipe is full. -/
def Blocked (setup : Setup) (s : State) : Prop :=
  s.unwritten ≠ [] ∧ setup.capacity ≤ s.pipe.length

def dueLines (ended : Bool) (stream : List UInt8) : List (List UInt8) :=
  if ended = true then stream.splitOn newline else (stream.splitOn newline).dropLast

/-- The observation of a stream: every run comes to an end, there every byte is on the
console and every line has its event, and the service is never blocked behind a scanner
that has stopped. -/
structure Observes (setup : Setup) (stream : List UInt8) : Prop where
  ends : ∃ n, ∀ acts s, runs.run (step setup) (start stream) acts = some s → acts.length ≤ n
  delivers : ∀ acts s, runs.run (step setup) (start stream) acts = some s → Quiet setup s →
    s.console = stream ∧ s.events = eventsOf setup (dueLines s.hungUp stream)
  notBlocked : ∀ acts s, runs.run (step setup) (start stream) acts = some s →
    ¬ (Blocked setup s ∧ s.decoder = .exited)

/-! ## Every run comes to an end -/

/-- The work that is left in the copier: a byte counts more the earlier it stands. -/
def Copier.work : Copier → Nat
  | .reading => 1
  | .toConsole chunk => 5 * chunk.length + 1
  | .toDecoder rest => 4 * rest.length + 1
  | .finished => 0

def Decoder.work : Decoder → Nat
  | .scanning => 1
  | _ => 0

def State.work (s : State) : Nat :=
  8 * s.unwritten.length + 6 * s.pipe.length + s.copier.work + 2 * s.scanner.pending.length +
    s.decoder.work + (if s.hungUp then 0 else 1) + (if s.scanner.eof then 0 else 2)

section work

variable {setup : Setup} {s t : State}

theorem work_write {n : Nat} (hs : stepWrite setup s n = some t) : t.work < s.work := by
  unfold stepWrite at hs
  split at hs
  · cases hs
    simp only [State.work, List.length_append, List.length_take, List.length_drop]
    omega
  · cases hs

theorem work_hangUp (hs : stepHangUp s = some t) : t.work < s.work := by
  unfold stepHangUp at hs
  split at hs
  · rename_i hend
    cases hs
    simp only [State.work, hend.2]
    simp
  · cases hs

theorem work_copy (hs : Shape setup s) (hst : stepCopy s = some t) : t.work < s.work := by
  unfold stepCopy at hst
  split at hst
  · rename_i hc
    split at hst
    · split at hst
      · cases hst
        simp only [State.work, hc, Copier.work]
        omega
      · cases hst
    · rename_i hp
      cases hst
      have hpos := List.length_pos_iff.mpr hp
      simp only [State.work, hc, Copier.work, copyBufSize, List.length_take, List.length_drop]
      omega
  · rename_i chunk hc
    cases hst
    have hpos := List.length_pos_iff.mpr (hs.chunk chunk (.inl hc)).1
    simp only [State.work, hc, Copier.work]
    omega
  · cases hst
  · cases hst

theorem work_scan (hdec : s.decoder = .scanning) (hs : Shape setup s) :
    (stepScan setup s).work < s.work := by
  unfold stepScan
  split
  · rename_i line rest hsc
    have hlt : rest.length < s.scanner.pending.length := by
      rcases scanLines_some hsc with ⟨-, hp⟩ | ⟨-, -, hne, -, hr⟩
      · rw [hp]
        simp only [List.length_append, List.length_cons]
        omega
      · rw [hr]
        exact List.length_pos_iff.mpr hne
    simp only [State.work]
    omega
  · split
    · simp only [State.work, hdec, Decoder.work]
      omega
    · split
      · simp only [State.work, hdec, Decoder.work]
        omega
      · rename_i sc hro
        obtain ⟨hpe, heof, -, -⟩ := makeRoom_some hs.fits hro
        simp only [State.work, hdec, Decoder.work, hpe, heof]
        omega

theorem work_read (hdec : s.decoder = .reading) (hs : Shape setup s)
    (hst : stepRead s = some t) : t.work < s.work := by
  obtain ⟨-, ho, hr⟩ := hs.reading hdec
  unfold stepRead at hst
  split at hst
  · rename_i rest hc
    cases hst
    have hpos := List.length_pos_iff.mpr (hs.chunk rest (.inr hc)).1
    simp only [State.work, hc, hdec, Decoder.work, List.length_append, List.length_take]
    split
    · rename_i hnil
      simp only [Copier.work]
      omega
    · simp only [Copier.work, List.length_drop]
      omega
  · rename_i hc
    cases hst
    simp only [State.work, hdec, Decoder.work, ho, if_true, Bool.false_eq_true, if_false]
    omega
  · cases hst

theorem work_step {a : Act} (hs : Shape setup s) (hst : step setup s a = some t) :
    t.work < s.work := by
  cases a with
  | write n => exact work_write hst
  | hangUp => exact work_hangUp hst
  | copy => exact work_copy hs hst
  | decode =>
    simp only [step, stepDecode] at hst
    split at hst
    · rename_i hdec
      cases hst
      exact work_scan hdec hs
    · rename_i hdec
      exact work_read hdec hs hst
    · cases hst

theorem length_le_work {stream : List UInt8} {acts : List Act}
    (hrun : runs.run (step setup) (start stream) acts = some s) :
    acts.length ≤ (start stream).work :=
  runs.length_le_weight State.work (fun _ _ _ hs h => shape_step hs h) (fun _ => True)
    (fun _ _ _ h _ hs => work_step h hs) (shape_start setup stream) (fun _ _ => trivial) hrun

theorem exists_last (setup : Setup) (stream : List UInt8) :
    ∃ acts s, runs.run (step setup) (start stream) acts = some s ∧ ∀ a, step setup s a = none := by
  have hinv : ∀ s a t, step setup s a = some t → Shape setup s → Shape setup t :=
    fun _ _ _ hs h => shape_step hs h
  obtain ⟨acts, s, -, hrun, hl⟩ := runs.exists_stuck State.work hinv (fun _ => True)
    (fun _ _ _ h _ hs => work_step h hs) (shape_start setup stream)
  exact ⟨acts, s, hrun, fun a => hl a trivial⟩

end work

/-! ## Where nothing moves -/

section quiet

variable {setup : Setup} {stream : List UInt8} {s : State}

/-- Nothing moves once the scanner has exited, or once it has read all that was written and
waits for more. -/
theorem quiet_cases (h : Quiet setup s) :
    s.decoder = .exited ∨ s.decoder = .reading ∧ s.copier = .reading ∧ s.pipe = [] ∧
      s.unwritten = [] ∧ s.hungUp = false := by
  have hc : stepCopy s = none := h .copy (by rintro ⟨⟩)
  have hd : stepDecode setup s = none := h .decode (by rintro ⟨⟩)
  cases hdec : s.decoder with
  | scanning =>
    unfold stepDecode at hd
    rw [hdec] at hd
    cases hd
  | exited => exact .inl rfl
  | reading =>
    refine .inr ⟨rfl, ?_⟩
    simp only [stepDecode, hdec] at hd
    cases hco : s.copier with
    | toConsole chunk => simp [stepCopy, hco] at hc
    | toDecoder rest => simp [stepRead, hco] at hd
    | finished => simp [stepRead, hco] at hd
    | reading =>
      have hp : s.pipe = [] := by
        by_contra hne
        simp [stepCopy, hco, hne] at hc
      have ho : s.hungUp = false := by
        by_contra hup
        simp [stepCopy, hco, hp, hup] at hc
      refine ⟨rfl, hp, ?_, ho⟩
      -- the pipe has room for one more byte
      by_contra hne
      have hw : stepWrite setup s 1 = none := h (.write 1) (by rintro ⟨⟩)
      have hlen := List.length_pos_iff.mpr hne
      have hcap := setup.capacity_pos
      unfold stepWrite at hw
      rw [if_pos ⟨Nat.one_pos, hlen, by rw [hp, List.length_nil]; omega⟩] at hw
      cases hw

theorem head_splitOn {front : List UInt8} (hnot : newline ∉ front) (back : List UInt8) :
    ∃ line rest, (front ++ back).splitOn newline = line :: rest ∧ front.length ≤ line.length := by
  by_cases hmem : newline ∈ back
  · obtain ⟨as, bs, hb, has⟩ := List.eq_append_cons_of_mem hmem
    have hnot' : newline ∉ front ++ as := by
      rw [List.mem_append, not_or]
      exact ⟨hnot, has⟩
    refine ⟨front ++ as, bs.splitOn newline, ?_, by simp⟩
    rw [hb, ← List.append_assoc, List.splitOn_append_cons_self_of_not_mem hnot']
  · have hnot' : newline ∉ front ++ back := by
      rw [List.mem_append, not_or]
      exact ⟨hnot, hmem⟩
    exact ⟨front ++ back, [], List.splitOn_eq_singleton hnot', by simp⟩

theorem long_line_of_stopped (h : Kept setup stream s) (hex : s.decoder = .exited)
    (ho : s.scanner.eof = false) :
    ∃ lines line rest, stream.splitOn newline = lines ++ line :: rest ∧
      s.events = eventsOf setup lines ∧ maxTokenSize ≤ line.length := by
  obtain ⟨hs, ha⟩ := h
  obtain ⟨lines, hout, -, hsc⟩ := ha.lines
  obtain ⟨hnot, hf⟩ := hs.exited hex
  rw [ho] at hf
  have hlen : s.scanner.pending.length = maxTokenSize := by
    rcases hf with ⟨he, -⟩ | ⟨-, hlen⟩
    · cases he
    · exact hlen
  rcases hsc with hsc | ⟨he, -, -⟩
  · obtain ⟨line, rest, hsp, hle⟩ := head_splitOn hnot s.ahead
    exact ⟨lines, line, rest, hsp ▸ hsc, hout, hlen ▸ hle⟩
  · rw [ho] at he
    cases he

theorem eventsOf_empty (setup : Setup) : eventsOf setup [[]] = [] := rfl

theorem all_scanned_of_eof (h : Kept setup stream s) (he : s.decoder = .exited)
    (heof : s.scanner.eof = true) :
    s.events = eventsOf setup (stream.splitOn newline) ∧
      ∀ line ∈ stream.splitOn newline, line.length < maxTokenSize := by
  obtain ⟨hs, ha⟩ := h
  obtain ⟨lines, hout, hsh, hsc⟩ := ha.lines
  have hnil : s.scanner.pending = [] := by
    rcases (hs.exited he).2 with ⟨-, hnil⟩ | ⟨ho, -⟩
    · exact hnil
    · rw [heof] at ho
      cases ho
  obtain ⟨hfin, -⟩ := hs.eof heof
  obtain ⟨hup, hp⟩ := hs.finished hfin
  rcases hsc with hsc | ⟨-, -, hsc⟩
  · have hl : stream.splitOn newline = lines ++ [[]] := by
      rw [hsc, hnil]
      simp only [State.ahead, hfin, hp, hs.hungUp hup, Copier.unscanned, List.append_nil,
        List.splitOn_nil]
    rw [hl, eventsOf_append, eventsOf_empty, List.append_nil]
    refine ⟨hout, fun line hmem => ?_⟩
    rcases List.mem_append.mp hmem with hmem | hmem
    · exact hsh line hmem
    · rw [List.mem_singleton.mp hmem]
      decide
  · rw [hsc]
    exact ⟨hout, hsh⟩

theorem console_of_eof (h : Kept setup stream s) (heof : s.scanner.eof = true) :
    s.console = stream ∧ s.unwritten = [] ∧ s.hungUp = true := by
  obtain ⟨hs, ha⟩ := h
  obtain ⟨hfin, -⟩ := hs.eof heof
  obtain ⟨hup, hp⟩ := hs.finished hfin
  have hu := hs.hungUp hup
  refine ⟨?_, hu, hup⟩
  rw [ha.console, hfin, hp, hu]
  simp only [Copier.unshown, List.append_nil]

theorem delivered_of_waiting (h : Kept setup stream s) (hdec : s.decoder = .reading)
    (hc : s.copier = .reading) (hp : s.pipe = []) (hu : s.unwritten = []) :
    s.console = stream ∧ s.events = eventsOf setup (stream.splitOn newline).dropLast := by
  obtain ⟨hs, ha⟩ := h
  obtain ⟨lines, hout, -, hsc⟩ := ha.lines
  obtain ⟨hnot, ho, -⟩ := hs.reading hdec
  have hah : s.ahead = [] := by
    simp only [State.ahead, hc, hp, hu, Copier.unscanned, List.append_nil]
  constructor
  · rw [ha.console, hc, hp, hu]
    simp only [Copier.unshown, List.append_nil]
  · rcases hsc with hsc | ⟨he, -, -⟩
    · rw [hsc, hah, List.append_nil, List.splitOn_eq_singleton hnot, List.dropLast_concat]
      exact hout
    · rw [ho] at he
      cases he

theorem eventsOf_long {line : List UInt8} (h : maxTokenSize ≤ line.length)
    (rest : List (List UInt8)) : eventsOf setup (line :: rest) ≠ [] := by
  have hne : dropCR line ≠ [] := by
    intro hnil
    have hlen := congrArg List.length hnil
    unfold dropCR at hlen
    simp only [maxTokenSize] at h
    split at hlen
    · simp only [List.length_dropLast, List.length_nil] at hlen
      omega
    · simp only [List.length_nil] at hlen
      omega
  simp [eventsOf, hne]

end quiet

/-! ## The law -/

section law

variable {setup : Setup} {stream : List UInt8}

theorem eof_of_exited {s : State} (hs : ∀ line ∈ stream.splitOn newline,
    line.length < maxTokenSize) (h : Kept setup stream s) (he : s.decoder = .exited) :
    s.scanner.eof = true := by
  by_contra ho
  obtain ⟨lines, line, rest, hsp, -, hl⟩ :=
    long_line_of_stopped h he (Bool.eq_false_iff.mpr ho)
  have hlt := hs line (by rw [hsp]; simp)
  omega

theorem observes_of_short (hs : ∀ line ∈ stream.splitOn newline,
    line.length < maxTokenSize) : Observes setup stream where
  ends := ⟨(start stream).work, fun _ _ hrun => length_le_work hrun⟩
  delivers acts s hrun hq := by
    have hk := kept_run hrun
    rcases quiet_cases hq with he | ⟨hdec, hc, hp, hu, ho⟩
    · have heof := eof_of_exited hs hk he
      obtain ⟨hco, -, hup⟩ := console_of_eof hk heof
      refine ⟨hco, ?_⟩
      rw [hup]
      exact (all_scanned_of_eof hk he heof).1
    · rw [ho]
      exact delivered_of_waiting hk hdec hc hp hu
  notBlocked acts s hrun := by
    rintro ⟨⟨hne, -⟩, he⟩
    have hk := kept_run hrun
    exact hne (console_of_eof hk (eof_of_exited hs hk he)).2.1

theorem exited_of_last {s : State} (hl : ∀ a, step setup s a = none) : s.decoder = .exited := by
  have hq : Quiet setup s := fun a _ => hl a
  rcases quiet_cases hq with he | ⟨-, -, -, hu, ho⟩
  · exact he
  · have hup := hl .hangUp
    simp [step, stepHangUp, hu, ho] at hup

/-- The observation of stdout loses nothing and blocks nothing exactly when no line fills the
buffer of the scanner. -/
theorem observes_iff (setup : Setup) (stream : List UInt8) :
    Observes setup stream ↔ ∀ line ∈ stream.splitOn newline, line.length < maxTokenSize := by
  constructor
  · intro h
    obtain ⟨acts, s, hrun, hl⟩ := exists_last setup stream
    have hk := kept_run hrun
    have he := exited_of_last hl
    cases heof : s.scanner.eof with
    | true => exact (all_scanned_of_eof hk he heof).2
    | false =>
      exfalso
      obtain ⟨lines, line, rest, hs, hout, hlo⟩ := long_line_of_stopped hk he heof
      obtain ⟨hc, hev⟩ := h.delivers acts s hrun (fun a _ => hl a)
      -- all is written, so the stream has ended
      have hup : s.hungUp = true := by
        have hb := congrArg List.length hk.2.console
        rw [hc] at hb
        simp only [List.length_append] at hb
        have hu : s.unwritten = [] := List.length_eq_zero_iff.mp (by omega)
        by_contra ho
        have hn := hl .hangUp
        simp [step, stepHangUp, hu, ho] at hn
      -- and the event of the long line is missing
      rw [hup, hout] at hev
      simp only [dueLines, if_true, hs, eventsOf_append] at hev
      exact eventsOf_long hlo rest (List.append_right_eq_self.mp hev.symm)
  · exact observes_of_short

theorem unscanned_length_le {s : State} (h : Shape setup s) :
    s.copier.unscanned.length ≤ copyBufSize := by
  cases hc : s.copier with
  | reading => exact Nat.zero_le _
  | toConsole chunk => exact (h.chunk chunk (.inl hc)).2
  | toDecoder rest => exact (h.chunk rest (.inr hc)).2
  | finished => exact Nat.zero_le _

/-- A stream without a newline that is longer than all the buffers: its service ends blocked
behind a scanner that has stopped. -/
theorem blocked_of_long (setup : Setup) (stream : List UInt8) (hnot : newline ∉ stream)
    (hl : maxTokenSize + copyBufSize + setup.capacity < stream.length) :
    ∃ acts s, runs.run (step setup) (start stream) acts = some s ∧ Blocked setup s ∧
      s.decoder = .exited := by
  obtain ⟨acts, s, hrun, hla⟩ := exists_last setup stream
  have hk := kept_run hrun
  have he := exited_of_last hla
  have hone : stream.splitOn newline = [stream] := List.splitOn_eq_singleton hnot
  have ho : s.scanner.eof = false := by
    by_contra heof
    have hs := (all_scanned_of_eof hk he (Bool.not_eq_false _ ▸ heof)).2
    have hlt := hs stream (by simp [hone])
    omega
  refine ⟨acts, s, hrun, ?_, he⟩
  obtain ⟨hsh, ha⟩ := hk
  -- the whole stream stands in the buffers
  have hlen : s.scanner.pending.length + s.ahead.length = stream.length := by
    obtain ⟨lines, -, -, hsc⟩ := ha.lines
    rcases hsc with hsc | ⟨heof, -, -⟩
    · rw [hone] at hsc
      rcases List.append_eq_singleton_iff.mp hsc.symm with ⟨-, hsp⟩ | ⟨-, hsp⟩
      · have hj : [newline].intercalate ((s.scanner.pending ++ s.ahead).splitOn newline) =
            s.scanner.pending ++ s.ahead := List.intercalate_splitOn newline
        rw [hsp, List.intercalate_singleton] at hj
        rw [hj, List.length_append]
      · exact absurd hsp (List.splitOn_ne_nil _ _)
    · rw [ho] at heof
      cases heof
  have hu : s.unwritten ≠ [] := by
    intro hnil
    have hp := hsh.pipe
    have hpe := hsh.fits
    have hc := unscanned_length_le hsh
    simp only [State.ahead, hnil, List.length_append, List.length_nil] at hlen
    simp only [Scanner.Fits] at hpe
    omega
  refine ⟨hu, ?_⟩
  by_contra hr
  have hw := hla (.write 1)
  have hpos := List.length_pos_iff.mpr hu
  simp only [step, stepWrite] at hw
  rw [if_pos ⟨Nat.one_pos, hpos, by omega⟩] at hw
  cases hw

end law

/-- No newline in 200000 bytes, with the pipe and the buffers as large as they are. -/
theorem long_line_blocks_the_service :
    ∃ setup stream acts s, setup.capacity = 65536 ∧
      runs.run (step setup) (start stream) acts = some s ∧ Blocked setup s ∧
      s.decoder = .exited := by
  obtain ⟨acts, s, hrun, hb, he⟩ :=
    blocked_of_long ⟨65536, none, by decide⟩ (List.replicate 200000 97)
      (fun hmem => absurd (List.eq_of_mem_replicate hmem) (by decide))
      (by rw [List.length_replicate]; decide)
  exact ⟨_, _, acts, s, rfl, hrun, hb, he⟩

end faultbox.stdout_observe
