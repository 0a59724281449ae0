-- The pipes behind an observed stdout (startBinaryService, stdoutSource): the service
-- writes to an OS pipe, one goroutine copies the pipe to the console and to an io.Pipe, and
-- a second one scans the io.Pipe for lines. The invariant: the stream is what stands on the
-- console and what is before it, and its lines are those with an event and those that are
-- still to scan.
import Faultbox.Runs

namespace faultbox.stdout_observe

/-! ## The scanner -/

/-- `bufio.MaxScanTokenSize`, the limit of the buffer. -/
def maxTokenSize : Nat := 64 * 1024

def startBufSize : Nat := 4096

def newline : UInt8 := 10

/-- `dropCR`: a line that ends with CR LF ends before the CR. -/
def dropCR (line : List UInt8) : List UInt8 :=
  if line.getLast? = some 13 then line.dropLast else line

/-- `bufio.Scanner`: the length of its buffer, where the bytes that were not scanned yet
begin in it, those bytes, and whether the reader has ended. -/
structure Scanner where
  size : Nat
  start : Nat
  pending : List UInt8
  eof : Bool

/-- `bufio.ScanLines` over the pending bytes: the next line as it was written, and the bytes
after it. -/
def scanLines (pending : List UInt8) (eof : Bool) : Option (List UInt8 × List UInt8) :=
  if newline ∈ pending then
    some (pending.takeWhile (· != newline), (pending.dropWhile (· != newline)).drop 1)
  else if eof = true ∧ pending ≠ [] then some (pending, [])
  else none

/-- `Scan` moves the pending bytes to the beginning of the buffer when it is full, or when
more than half of it lies before them. -/
def Scanner.shift (sc : Scanner) : Scanner :=
  if 0 < sc.start ∧ (sc.start + sc.pending.length = sc.size ∨ sc.size / 2 < sc.start) then
    { sc with start := 0 }
  else sc

/-- The part of `Scan` that makes room for the next read; `none` is `ErrTooLong`. -/
def Scanner.makeRoom (sc : Scanner) : Option Scanner :=
  if sc.shift.start + sc.shift.pending.length = sc.shift.size then
    if maxTokenSize ≤ sc.size then none
    else
      let newSize := if sc.size * 2 = 0 then startBufSize else sc.size * 2
      some { sc.shift with size := min newSize maxTokenSize, start := 0 }
  else some sc.shift

/-! ## The machine -/

abbrev Fields := List (String × List UInt8)

/-- The pipe's capacity, and the decoder of the source where one is configured; a decoder
can fail. -/
structure Setup where
  capacity : Nat
  decode : Option (List UInt8 → Option Fields)
  capacity_pos : 0 < capacity

/-- The event of a line. -/
def lineEvent (setup : Setup) (line : List UInt8) : Fields :=
  match setup.decode with
  | none => [("raw", line)]
  | some decode =>
    match decode line with
    | none => [("raw", line)]
    | some fields => fields

def eventsOf (setup : Setup) (lines : List (List UInt8)) : List Fields :=
  ((lines.map dropCR).filter (· ≠ [])).map (lineEvent setup)

/-- The buffer of `io.Copy`. -/
def copyBufSize : Nat := 32 * 1024

/-- The goroutine that copies; the writers of the `MultiWriter` come one after the other. -/
inductive Copier where
  | reading
  | toConsole (chunk : List UInt8)
  | toDecoder (rest : List UInt8)
  | finished

/-- The goroutine that scans. -/
inductive Decoder where
  | scanning
  | reading
  | exited

structure State where
  unwritten : List UInt8
  pipe : List UInt8
  /-- No process has the write end of the pipe open. -/
  hungUp : Bool
  copier : Copier
  console : List UInt8
  decoder : Decoder
  scanner : Scanner
  events : List Fields

/-- The service is about to write the stream. -/
def start (stream : List UInt8) : State where
  unwritten := stream
  pipe := []
  hungUp := false
  copier := .reading
  console := []
  decoder := .scanning
  scanner := ⟨0, 0, [], false⟩
  events := []

inductive Act where
  | write (n : Nat)
  | hangUp
  | copy
  | decode

/-- The service writes `n` bytes; they have to fit into the pipe. -/
def stepWrite (setup : Setup) (s : State) (n : Nat) : Option State :=
  if 0 < n ∧ n ≤ s.unwritten.length ∧ s.pipe.length + n ≤ setup.capacity then
    some { s with unwritten := s.unwritten.drop n, pipe := s.pipe ++ s.unwritten.take n }
  else none

def stepHangUp (s : State) : Option State :=
  if s.unwritten = [] ∧ s.hungUp = false then some { s with hungUp := true } else none

/-- The next step of the copying goroutine; a write to the io.Pipe ends with the reads of the
other one. -/
def stepCopy (s : State) : Option State :=
  match s.copier with
  | .reading =>
    if s.pipe = [] then
      if s.hungUp = true then some { s with copier := .finished } else none
    else
      some { s with
        copier := .toConsole (s.pipe.take copyBufSize), pipe := s.pipe.drop copyBufSize }
  | .toConsole chunk => some { s with console := s.console ++ chunk, copier := .toDecoder chunk }
  | .toDecoder _ => none
  | .finished => none

/-- The next step of the scanning goroutine: a line, or the call of `Read`, or its end. -/
def stepScan (setup : Setup) (s : State) : State :=
  match scanLines s.scanner.pending s.scanner.eof with
  | some (line, rest) =>
    { s with
      scanner := { s.scanner with
        start := s.scanner.start + (s.scanner.pending.length - rest.length), pending := rest }
      events := s.events ++ eventsOf setup [line] }
  | none =>
    if s.scanner.eof = true then { s with decoder := .exited }
    else
      match s.scanner.makeRoom with
      | none => { s with decoder := .exited }
      | some scanner => { s with decoder := .reading, scanner := scanner }

/-- `Read` of the io.Pipe takes what fits from the write that waits. -/
def stepRead (s : State) : Option State :=
  match s.copier with
  | .toDecoder rest =>
    let n := s.scanner.size - (s.scanner.start + s.scanner.pending.length)
    some { s with
      copier := if rest.drop n = [] then .reading else .toDecoder (rest.drop n)
      decoder := .scanning
      scanner := { s.scanner with pending := s.scanner.pending ++ rest.take n } }
  | .finished => some { s with decoder := .scanning, scanner := { s.scanner with eof := true } }
  | _ => none

def stepDecode (setup : Setup) (s : State) : Option State :=
  match s.decoder with
  | .scanning => some (stepScan setup s)
  | .reading => stepRead s
  | .exited => none

def step (setup : Setup) (s : State) : Act → Option State
  | .write n => stepWrite setup s n
  | .hangUp => stepHangUp s
  | .copy => stepCopy s
  | .decode => stepDecode setup s

/-! ## The scanner, line by line -/

/-- A token is a line up to its newline, or the rest once the reader has ended. -/
theorem scanLines_some {pending line rest : List UInt8} {eof : Bool}
    (h : scanLines pending eof = some (line, rest)) :
    (newline ∉ line ∧ pending = line ++ newline :: rest) ∨
      (eof = true ∧ newline ∉ pending ∧ pending ≠ [] ∧ line = pending ∧ rest = []) := by
  unfold scanLines at h
  split at h
  · rename_i hmem
    obtain ⟨hl, hr⟩ := Prod.mk.inj (Option.some.inj h)
    have hnot : newline ∉ pending.takeWhile (· != newline) := by
      intro hin
      simpa using List.all_eq_true.mp List.all_takeWhile newline hin
    -- what is not taken begins with the newline
    have hdr : pending.dropWhile (· != newline) = newline :: rest := by
      rw [← hr]
      cases hd : pending.dropWhile (· != newline) with
      | nil =>
        have hs := List.takeWhile_append_dropWhile (p := (· != newline)) (l := pending)
        rw [hd, List.append_nil] at hs
        exact absurd (hs.symm ▸ hmem) hnot
      | cons b bs =>
        have hb := List.head?_dropWhile_not (· != newline) pending
        rw [hd] at hb
        have hbn : b = newline := by simpa using hb
        rw [hbn, List.drop_one, List.tail_cons]
    refine .inl ⟨hl ▸ hnot, ?_⟩
    rw [← hl, ← hdr, List.takeWhile_append_dropWhile]
  · rename_i hmem
    split at h
    · rename_i hend
      obtain ⟨hl, hr⟩ := Prod.mk.inj (Option.some.inj h)
      exact .inr ⟨hend.1, hmem, hend.2, hl.symm, hr.symm⟩
    · cases h

theorem scanLines_none {pending : List UInt8} {eof : Bool} (h : scanLines pending eof = none) :
    newline ∉ pending ∧ (eof = true → pending = []) := by
  unfold scanLines at h
  split at h
  · cases h
  · rename_i hmem
    split at h
    · cases h
    · rename_i hend
      refine ⟨hmem, fun heof => ?_⟩
      by_contra hne
      exact hend ⟨heof, hne⟩

/-- The bytes stand inside the buffer, and the buffer keeps its limit. -/
def Scanner.Fits (sc : Scanner) : Prop :=
  sc.start + sc.pending.length ≤ sc.size ∧ sc.size ≤ maxTokenSize

theorem shift_spec (sc : Scanner) :
    sc.shift.pending = sc.pending ∧ sc.shift.eof = sc.eof ∧ sc.shift.size = sc.size ∧
      sc.shift.start ≤ sc.start ∧
      (sc.shift.start + sc.pending.length = sc.size → sc.shift.start = 0) := by
  unfold Scanner.shift
  split
  · exact ⟨rfl, rfl, rfl, Nat.zero_le _, fun _ => rfl⟩
  · rename_i hs
    refine ⟨rfl, rfl, rfl, Nat.le_refl _, fun hf => ?_⟩
    by_contra hne
    exact hs ⟨Nat.pos_of_ne_zero hne, .inl hf⟩

theorem makeRoom_some {sc sc' : Scanner} (hf : sc.Fits) (h : sc.makeRoom = some sc') :
    sc'.pending = sc.pending ∧ sc'.eof = sc.eof ∧
      sc'.start + sc.pending.length < sc'.size ∧ sc'.size ≤ maxTokenSize := by
  obtain ⟨hin, hmax⟩ := hf
  obtain ⟨hp, heof, hs, hle, hz⟩ := shift_spec sc
  unfold Scanner.makeRoom at h
  rw [hp, hs] at h
  split at h
  · rename_i hfu
    split at h
    · cases h
    · rename_i hsm
      cases h
      refine ⟨hp, heof, ?_, Nat.min_le_right _ _⟩
      have hst := hz hfu
      simp only [startBufSize, maxTokenSize] at hsm ⊢
      split <;> omega
  · rename_i hr
    cases h
    refine ⟨hp, heof, ?_, hs ▸ hmax⟩
    omega

/-- `ErrTooLong`: the pending bytes fill the largest buffer. -/
theorem makeRoom_none {sc : Scanner} (hf : sc.Fits) (h : sc.makeRoom = none) :
    sc.pending.length = maxTokenSize := by
  obtain ⟨hin, hmax⟩ := hf
  obtain ⟨hp, -, hs, -, hz⟩ := shift_spec sc
  unfold Scanner.makeRoom at h
  rw [hp, hs] at h
  split at h
  · rename_i hfu
    split at h
    · have hst := hz hfu
      omega
    · cases h
  · cases h

/-! ## The invariant -/

def Copier.unshown : Copier → List UInt8
  | .toConsole chunk => chunk
  | _ => []

def Copier.unscanned : Copier → List UInt8
  | .toConsole chunk => chunk
  | .toDecoder rest => rest
  | _ => []

def State.ahead (s : State) : List UInt8 := s.copier.unscanned ++ (s.pipe ++ s.unwritten)

/-- How the parts of the machine stand to each other. -/
structure Shape (setup : Setup) (s : State) : Prop where
  pipe : s.pipe.length ≤ setup.capacity
  fits : s.scanner.Fits
  reading : s.decoder = .reading → newline ∉ s.scanner.pending ∧ s.scanner.eof = false ∧
    s.scanner.start + s.scanner.pending.length < s.scanner.size
  exited : s.decoder = .exited → newline ∉ s.scanner.pending ∧
    (s.scanner.eof = true ∧ s.scanner.pending = [] ∨
      s.scanner.eof = false ∧ s.scanner.pending.length = maxTokenSize)
  eof : s.scanner.eof = true →
    s.copier = .finished ∧ s.scanner.pending.length < maxTokenSize
  finished : s.copier = .finished → s.hungUp = true ∧ s.pipe = []
  hungUp : s.hungUp = true → s.unwritten = []
  chunk : ∀ c, s.copier = .toConsole c ∨ s.copier = .toDecoder c →
    c ≠ [] ∧ c.length ≤ copyBufSize

theorem shape_start (setup : Setup) (stream : List UInt8) : Shape setup (start stream) where
  pipe := Nat.zero_le _
  fits := ⟨Nat.le_refl _, Nat.zero_le _⟩
  reading h := nomatch h
  exited h := nomatch h
  eof h := nomatch h
  finished h := nomatch h
  hungUp h := nomatch h
  chunk _ h := nomatch h

section shape

variable {setup : Setup} {s t : State}

theorem shape_write {n : Nat} (hs : stepWrite setup s n = some t) (h : Shape setup s) :
    Shape setup t := by
  unfold stepWrite at hs
  obtain ⟨hn, rfl⟩ := runs.of_guard hs
  -- something is unwritten, so the pipe is not hung up
  have ho : s.hungUp = false := by
    by_contra hup
    have hno := h.hungUp (Bool.not_eq_false _ ▸ hup)
    rw [hno] at hn
    simp only [List.length_nil] at hn
    omega
  exact {
    pipe := by
      simp only [List.length_append, List.length_take]
      omega
    fits := h.fits
    reading := h.reading
    exited := h.exited
    eof := h.eof
    finished := fun hfin => absurd (h.finished hfin).1 (by rw [ho]; decide)
    hungUp := fun hup => absurd hup (by rw [ho]; decide)
    chunk := h.chunk }

theorem shape_hangUp (hs : stepHangUp s = some t) (h : Shape setup s) : Shape setup t := by
  unfold stepHangUp at hs
  obtain ⟨hend, rfl⟩ := runs.of_guard hs
  exact { h with
    finished := fun hfin => ⟨rfl, (h.finished hfin).2⟩
    hungUp := fun _ => hend.1 }

theorem shape_copy (hs : stepCopy s = some t) (h : Shape setup s) : Shape setup t := by
  -- the reader has not ended while the copier can go on
  have ho : s.copier ≠ .finished → s.scanner.eof ≠ true :=
    fun hne heof => hne (h.eof heof).1
  unfold stepCopy at hs
  split at hs
  · rename_i hco
    have heof := ho (by rw [hco]; exact fun h => nomatch h)
    split at hs
    · rename_i hp
      obtain ⟨hup, rfl⟩ := runs.of_guard hs
      exact { h with
        eof := fun he => absurd he heof
        finished := fun _ => ⟨hup, hp⟩
        chunk := fun _ hc => nomatch hc }
    · rename_i hp
      cases hs
      refine { h with
        pipe := Nat.le_trans (List.drop_sublist _ _).length_le h.pipe
        eof := fun he => absurd he heof
        finished := fun hfin => nomatch hfin
        chunk := ?_ }
      rintro c (hc | hc)
      · cases hc
        refine ⟨fun hnil => ?_, List.length_take_le _ _⟩
        exact hp ((List.take_eq_nil_iff.mp hnil).resolve_left (by decide))
      · cases hc
  · rename_i chunk hco
    have heof := ho (by rw [hco]; exact fun h => nomatch h)
    cases hs
    refine { h with
      eof := fun he => absurd he heof
      finished := fun hfin => nomatch hfin
      chunk := ?_ }
    rintro c (hc | hc)
    · cases hc
    · cases hc
      exact h.chunk chunk (.inl hco)
  · cases hs
  · cases hs

theorem shape_scan (hdec : s.decoder = .scanning) (h : Shape setup s) :
    Shape setup (stepScan setup s) := by
  unfold stepScan
  split
  · rename_i line rest hs
    -- the rest is shorter than what was pending
    have hle : rest.length ≤ s.scanner.pending.length := by
      rcases scanLines_some hs with ⟨-, hp⟩ | ⟨-, -, -, -, hre⟩
      · rw [hp]
        simp only [List.length_append, List.length_cons]
        omega
      · rw [hre]
        exact Nat.zero_le _
    refine { h with
      fits := ⟨?_, h.fits.2⟩
      reading := fun hr => absurd (hdec.symm.trans hr) (fun h => nomatch h)
      exited := fun hr => absurd (hdec.symm.trans hr) (fun h => nomatch h)
      eof := fun he => ⟨(h.eof he).1, Nat.lt_of_le_of_lt hle (h.eof he).2⟩ }
    have hin := h.fits.1
    show s.scanner.start + (s.scanner.pending.length - rest.length) + rest.length ≤ s.scanner.size
    omega
  · rename_i hs
    obtain ⟨hnot, hend⟩ := scanLines_none hs
    split
    · rename_i heof
      exact { h with
        reading := fun hr => nomatch hr
        exited := fun _ => ⟨hnot, .inl ⟨heof, hend heof⟩⟩ }
    · rename_i heof
      have ho : s.scanner.eof = false := Bool.eq_false_iff.mpr heof
      split
      · rename_i hro
        exact { h with
          reading := fun hr => nomatch hr
          exited := fun _ => ⟨hnot, .inr ⟨ho, makeRoom_none h.fits hro⟩⟩ }
      · rename_i sc hro
        obtain ⟨hpe, heof', hlt, hmax⟩ := makeRoom_some h.fits hro
        rw [← hpe] at hlt hnot
        exact { h with
          fits := ⟨Nat.le_of_lt hlt, hmax⟩
          reading := fun _ => ⟨hnot, heof'.trans ho, hlt⟩
          exited := fun hr => nomatch hr
          eof := fun he => absurd (heof'.symm.trans he) heof }

theorem shape_read (hdec : s.decoder = .reading) (hs : stepRead s = some t) (h : Shape setup s) :
    Shape setup t := by
  obtain ⟨hnot, ho, hlt⟩ := h.reading hdec
  unfold stepRead at hs
  split at hs
  · rename_i rest hco
    cases hs
    obtain ⟨-, hre⟩ := h.chunk rest (.inr hco)
    have hmin := List.length_take_le
      (s.scanner.size - (s.scanner.start + s.scanner.pending.length)) rest
    refine { h with
      fits := ⟨?_, h.fits.2⟩
      reading := by rintro ⟨⟩
      exited := by rintro ⟨⟩
      eof := fun he => absurd (ho.symm.trans he) (by rintro ⟨⟩)
      finished := ?_
      chunk := ?_ }
    · simp only [List.length_append]
      omega
    · intro hfin
      dsimp only at hfin
      split at hfin <;> cases hfin
    · intro c hc
      dsimp only at hc
      split at hc
      · rcases hc with hc | hc <;> cases hc
      · rename_i hne
        rcases hc with hc | hc
        · cases hc
        · cases hc
          exact ⟨hne, Nat.le_trans (List.drop_sublist _ _).length_le hre⟩
  · rename_i hco
    cases hs
    refine { h with
      reading := by rintro ⟨⟩
      exited := by rintro ⟨⟩
      eof := fun _ => ⟨hco, ?_⟩ }
    have hmax := h.fits.2
    show s.scanner.pending.length < maxTokenSize
    omega
  · cases hs

theorem shape_step {a : Act} (hs : step setup s a = some t) (h : Shape setup s) :
    Shape setup t := by
  cases a with
  | write n => exact shape_write hs h
  | hangUp => exact shape_hangUp hs h
  | copy => exact shape_copy hs h
  | decode =>
    simp only [step, stepDecode] at hs
    split at hs
    · rename_i hdec
      cases hs
      exact shape_scan hdec h
    · rename_i hdec
      exact shape_read hdec hs h
    · cases hs

end shape

/-! ## What the bytes have become -/

theorem eventsOf_append (setup : Setup) (xs ys : List (List UInt8)) :
    eventsOf setup (xs ++ ys) = eventsOf setup xs ++ eventsOf setup ys := by
  simp only [eventsOf, List.map_append, List.filter_append]

/-- The lines of a stream: those scanned so far, and those of what is still to scan. -/
def Scanned (stream : List UInt8) (s : State) (lines : List (List UInt8)) : Prop :=
  stream.splitOn newline = lines ++ (s.scanner.pending ++ s.ahead).splitOn newline ∨
    s.scanner.eof = true ∧ s.scanner.pending = [] ∧ stream.splitOn newline = lines

/-- The stream against the state: what is on the console and what is before it, and the
lines whose events are out. -/
structure Account (setup : Setup) (stream : List UInt8) (s : State) : Prop where
  console : stream = s.console ++ (s.copier.unshown ++ (s.pipe ++ s.unwritten))
  lines : ∃ lines, s.events = eventsOf setup lines ∧ (∀ l ∈ lines, l.length < maxTokenSize) ∧
    Scanned stream s lines

theorem account_start (setup : Setup) (stream : List UInt8) :
    Account setup stream (start stream) where
  console := rfl
  lines := ⟨[], rfl, fun _ h => absurd h List.not_mem_nil, .inl rfl⟩

theorem unscanned_rest (rest : List UInt8) :
    (if rest = [] then Copier.reading else .toDecoder rest).unscanned = rest := by
  split
  · rename_i hnil
    exact hnil.symm
  · rfl

section account

variable {setup : Setup} {stream : List UInt8} {s t : State}

theorem Account.moved (h : Account setup stream s)
    (hc : t.console ++ (t.copier.unshown ++ (t.pipe ++ t.unwritten)) =
      s.console ++ (s.copier.unshown ++ (s.pipe ++ s.unwritten)))
    (ha : t.ahead = s.ahead) (hs : t.scanner = s.scanner)
    (he : t.events = s.events) : Account setup stream t where
  console := h.console.trans hc.symm
  lines := by
    obtain ⟨lines, hout, hsh, hsc⟩ := h.lines
    refine ⟨lines, he.trans hout, hsh, ?_⟩
    unfold Scanned
    rw [ha, hs]
    exact hsc

theorem account_write {n : Nat} (hs : stepWrite setup s n = some t)
    (h : Account setup stream s) : Account setup stream t := by
  unfold stepWrite at hs
  obtain ⟨-, rfl⟩ := runs.of_guard hs
  refine h.moved ?_ ?_ rfl rfl
  · simp only [List.append_assoc, List.take_append_drop]
  · simp only [State.ahead, List.append_assoc, List.take_append_drop]

theorem account_hangUp (hs : stepHangUp s = some t) (h : Account setup stream s) :
    Account setup stream t := by
  unfold stepHangUp at hs
  obtain ⟨-, rfl⟩ := runs.of_guard hs
  exact h.moved rfl rfl rfl rfl

theorem account_copy (hs : stepCopy s = some t) (h : Account setup stream s) :
    Account setup stream t := by
  unfold stepCopy at hs
  split at hs
  · rename_i hc
    split at hs
    · split at hs
      · cases hs
        refine h.moved ?_ ?_ rfl rfl
        · rw [hc]
          rfl
        · simp only [State.ahead, hc]
          rfl
      · cases hs
    · cases hs
      refine h.moved ?_ ?_ rfl rfl
      · simp only [hc, Copier.unshown, List.nil_append]
        rw [← List.append_assoc (s.pipe.take _), List.take_append_drop]
      · simp only [State.ahead, hc, Copier.unscanned, List.nil_append]
        rw [← List.append_assoc, List.take_append_drop]
  · rename_i chunk hc
    cases hs
    refine h.moved ?_ ?_ rfl rfl
    · simp only [hc, Copier.unshown, List.nil_append, List.append_assoc]
    · simp only [State.ahead, hc, Copier.unscanned]
  · cases hs
  · cases hs

/-- A line comes out of the scanner with its event. -/
theorem account_scan (hs : Shape setup s) (h : Account setup stream s) :
    Account setup stream (stepScan setup s) := by
  obtain ⟨lines, hout, hsh, hsc⟩ := h.lines
  unfold stepScan
  split
  · rename_i line rest hsca
    refine ⟨h.console, lines ++ [line], ?_, ?_, ?_⟩
    · rw [eventsOf_append, ← hout]
    · intro l hl
      rcases List.mem_append.mp hl with hl | hl
      · exact hsh l hl
      · rw [List.mem_singleton.mp hl]
        rcases scanLines_some hsca with ⟨-, hp⟩ | ⟨heof, -, -, hli, -⟩
        · -- the line and its newline stand in the buffer
          have hin := hs.fits
          have hlen := congrArg List.length hp
          simp only [Scanner.Fits, List.length_append, List.length_cons] at hin hlen
          omega
        · rw [hli]
          exact (hs.eof heof).2
    · rcases scanLines_some hsca with ⟨hnot, hp⟩ | ⟨heof, hnot, hne, hli, hr⟩
      · rcases hsc with hsc | ⟨-, hnil, -⟩
        · refine .inl ?_
          rw [hsc, hp]
          simp only [List.append_assoc, List.cons_append]
          rw [List.splitOn_append_cons_self_of_not_mem hnot]
          rfl
        · rw [hnil] at hp
          simp at hp
      · rcases hsc with hsc | ⟨-, hnil, -⟩
        · refine .inr ⟨heof, hr, ?_⟩
          -- nothing is left before the scanner
          have hfin := (hs.eof heof).1
          obtain ⟨hup, hpi⟩ := hs.finished hfin
          have ha : s.ahead = [] := by
            simp only [State.ahead, hfin, hpi, hs.hungUp hup, Copier.unscanned,
              List.append_nil]
          rw [hsc, ha, List.append_nil, List.splitOn_eq_singleton hnot, hli]
        · exact absurd hnil hne
  · split
    · exact h.moved rfl rfl rfl rfl
    · split
      · exact h.moved rfl rfl rfl rfl
      · rename_i sc hro
        obtain ⟨hpe, heof, -, -⟩ := makeRoom_some hs.fits hro
        refine ⟨h.console, lines, hout, hsh, ?_⟩
        rcases hsc with hsc | ⟨he, hnil, hall⟩
        · refine .inl ?_
          rw [hsc, ← hpe]
          rfl
        · exact .inr ⟨heof.trans he, hpe.trans hnil, hall⟩

theorem account_read (hdec : s.decoder = .reading) (hs : Shape setup s)
    (hst : stepRead s = some t) (h : Account setup stream s) : Account setup stream t := by
  obtain ⟨-, ho, -⟩ := hs.reading hdec
  obtain ⟨lines, hout, hsh, hsc⟩ := h.lines
  -- the reader has not ended, so the lines of the rest are still to come
  have hop : stream.splitOn newline =
      lines ++ (s.scanner.pending ++ s.ahead).splitOn newline := by
    rcases hsc with hsc | ⟨he, -, -⟩
    · exact hsc
    · rw [ho] at he
      cases he
  unfold stepRead at hst
  split at hst
  · rename_i rest hc
    cases hst
    refine ⟨?_, lines, hout, hsh, .inl ?_⟩
    · rw [h.console, hc]
      dsimp only
      split <;> rfl
    · rw [hop]
      simp only [State.ahead, hc, unscanned_rest]
      rw [List.append_assoc s.scanner.pending, ← List.append_assoc (rest.take _),
        List.take_append_drop]
      rfl
  · rename_i hc
    cases hst
    exact ⟨h.console, lines, hout, hsh, .inl hop⟩
  · cases hst

theorem account_step {a : Act} (hs : step setup s a = some t) (hsh : Shape setup s)
    (h : Account setup stream s) : Account setup stream t := by
  cases a with
  | write n => exact account_write hs h
  | hangUp => exact account_hangUp hs h
  | copy => exact account_copy hs h
  | decode =>
    simp only [step, stepDecode] at hs
    split at hs
    · cases hs
      exact account_scan hsh h
    · rename_i hdec
      exact account_read hdec hsh hs h
    · cases hs

/-- The invariant of a run. -/
def Kept (setup : Setup) (stream : List UInt8) (s : State) : Prop :=
  Shape setup s ∧ Account setup stream s

theorem kept_step {a : Act} (hs : step setup s a = some t) (h : Kept setup stream s) :
    Kept setup stream t :=
  ⟨shape_step hs h.1, account_step hs h.1 h.2⟩

theorem kept_run {acts : List Act} (hrun : runs.run (step setup) (start stream) acts = some s) :
    Kept setup stream s :=
  runs.run_preserves (Kept setup stream) (fun _ _ _ hs h => kept_step hs h) hrun
    ⟨shape_start setup stream, account_start setup stream⟩

end account

end faultbox.stdout_observe
