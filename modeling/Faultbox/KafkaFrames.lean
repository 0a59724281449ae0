-- Frames of a Kafka connection: kafkaFrames keeps the bytes of a frame that is not whole yet, and
-- Write hands whole frames on. The law: how the stream is cut into chunks does not show.
import Faultbox.GoText
import Faultbox.GoValues

open gopath gotext goval

namespace faultbox.kafka_frames

/-! ## The loop -/

def maxFrame : Nat := 64 * 1024 * 1024

section loop

variable {σ : Type} (visit : Bytes → σ → Option String × σ)

/-- The loop of `kafkaFrames`: its error, the bytes it leaves in the buffer, and what the visitor
made of the state. -/
def cut (buffer : Bytes) (s : σ) : Option String × Bytes × σ :=
  if buffer.length < 4 then (none, buffer, s)
  else
    let size := beValue (buffer.take 4)
    if size < 4 ∨ maxFrame < size then
      (some ("invalid Kafka frame size " ++ toString size), buffer, s)
    else if buffer.length < size + 4 then (none, buffer, s)
    else
      match visit ((buffer.drop 4).take size) s with
      | (some err, s) => (some err, buffer, s)
      | (none, s) => cut (buffer.drop (4 + size)) s
termination_by buffer.length
decreasing_by
  rw [List.length_drop]
  omega

def kafkaFrames (buffer data : Bytes) (s : σ) : Option String × Bytes × σ :=
  cut visit (buffer ++ data) s

/-- Chunks one by one, until an error. -/
def feed (buffer : Bytes) (s : σ) : List Bytes → Option String × Bytes × σ
  | [] => (none, buffer, s)
  | data :: rest =>
    match kafkaFrames visit buffer data s with
    | (some err, buffer, s) => (some err, buffer, s)
    | (none, buffer, s) => feed buffer s rest

end loop

/-! ## Writes of an observed connection -/

/-- The connection underneath: how often it was written to, and what it took. -/
structure Conn where
  calls : Nat
  sent : Bytes

/-- The loop over `c.Conn.Write`; `accept` says how much each call takes. -/
def writeAll (accept : Nat → Bytes → Except String Nat) (wire : Bytes) (c : Conn) :
    Option String × Conn :=
  if wire = [] then (none, c)
  else
    match accept c.calls wire with
    | .error err => (some err, { c with calls := c.calls + 1 })
    | .ok n =>
      if n = 0 then (some "short write", { c with calls := c.calls + 1 })
      else writeAll accept (wire.drop n) ⟨c.calls + 1, c.sent ++ wire.take n⟩
termination_by wire.length
decreasing_by
  rw [List.length_drop]
  have := List.length_pos_iff.mpr ‹_›
  omega

/-- What becomes of a response to a pending request: the frame that goes on, and what the observer
notes. -/
structure Lib (P ω : Type) where
  rewrite : P → Bytes → Except String Bytes
  recordError : String → ω → ω
  observe : P → Bytes → ω → ω

/-- `kafkaObservedConn`. -/
structure ObservedConn (P ω : Type) where
  output : Bytes
  pending : GoMap Nat P
  conn : Conn
  observer : ω

section write

variable {P ω : Type} (lib : Lib P ω) (accept : Nat → Bytes → Except String Nat)

/-- The visitor of `Write`. -/
def visitWrite (frame : Bytes) (c : ObservedConn P ω) : Option String × ObservedConn P ω :=
  let pending := c.pending.lookup (beValue (frame.take 4))
  let c := { c with pending := c.pending.erase (beValue (frame.take 4)) }
  match (match pending with
    | some p => lib.rewrite p frame
    | none => .ok frame) with
  | .error err => (some err, { c with observer := lib.recordError err c.observer })
  | .ok out =>
    match writeAll accept (bigEndian 4 out.length ++ out) c.conn with
    | (some err, conn) => (some err, { c with conn := conn })
    | (none, conn) =>
      (none, { c with
        conn := conn
        observer := match pending with
          | some p => lib.observe p frame c.observer
          | none => c.observer })

/-- `Write`: the number of bytes that it reports, or the error. -/
def ObservedConn.write (c : ObservedConn P ω) (b : Bytes) :
    Except String Nat × ObservedConn P ω :=
  match kafkaFrames (visitWrite lib accept) c.output b c with
  | (some err, buffer, c) => (.error err, { c with output := buffer })
  | (none, buffer, c) => (.ok b.length, { c with output := buffer })

def ObservedConn.writes (c : ObservedConn P ω) :
    List Bytes → List (Except String Nat) × ObservedConn P ω
  | [] => ([], c)
  | b :: rest =>
    let (n, c) := c.write lib accept b
    let (ns, c) := c.writes rest
    (n :: ns, c)

end write

/-! ## Streams -/

/-- A frame of a size that the loop accepts. -/
structure Frame where
  body : Bytes
  large : 4 ≤ body.length
  small : body.length ≤ maxFrame

def Frame.wire (f : Frame) : Bytes := bigEndian 4 f.body.length ++ f.body

/-- The end of a stream that is no whole frame: its size is not there yet, or announces more. -/
def Incomplete (tail : Bytes) : Prop :=
  4 ≤ tail.length → 4 ≤ beValue (tail.take 4) ∧ beValue (tail.take 4) ≤ maxFrame ∧
    tail.length < beValue (tail.take 4) + 4

theorem Frame.wire_facts (f : Frame) (rest : Bytes) :
    beValue ((f.wire ++ rest).take 4) = f.body.length ∧
      ((f.wire ++ rest).drop 4).take f.body.length = f.body ∧
      (f.wire ++ rest).drop (4 + f.body.length) = rest ∧ f.wire.length = f.body.length + 4 := by
  have hsmall := f.small
  have hsize : f.body.length < 256 ^ 4 := by
    unfold maxFrame at hsmall
    omega
  have htake : (f.wire ++ rest).take 4 = bigEndian 4 f.body.length := by simp [Frame.wire]
  have hdrop : (f.wire ++ rest).drop 4 = f.body ++ rest := by simp [Frame.wire]
  refine ⟨?_, ?_, ?_, ?_⟩
  · rw [htake, beValue_bigEndian hsize]
  · rw [hdrop, List.take_left]
  · rw [← List.drop_drop, hdrop, List.drop_left]
  · simp [Frame.wire, Nat.add_comm]

variable {x y tail : Bytes} {frames : List Frame}

section cut

variable {σ : Type} {visit : Bytes → σ → Option String × σ} {s : σ}

theorem cut_incomplete {buffer : Bytes} (h : Incomplete buffer) :
    cut visit buffer s = (none, buffer, s) := by
  rw [cut]
  by_cases hlen : buffer.length < 4
  · rw [if_pos hlen]
  · obtain ⟨hlarge, hsmall, hless⟩ := h (by omega)
    rw [if_neg hlen]
    dsimp only
    rw [if_neg (by omega), if_pos hless]

theorem cut_frame (f : Frame) (rest : Bytes) (hv : (visit f.body s).1 = none) :
    cut visit (f.wire ++ rest) s = cut visit rest (visit f.body s).2 := by
  obtain ⟨hsize, hbody, hrest, hlen⟩ := f.wire_facts rest
  have hlarge := f.large
  have hsmall := f.small
  rw [cut]
  simp only [hsize, hbody, hrest, List.length_append, hlen]
  rw [if_neg (by omega), if_neg (by omega), if_neg (by omega), Prod.fst_eq_iff.mp hv]

theorem Incomplete.of_append (h : Incomplete (x ++ y)) : Incomplete x := by
  intro hlen
  rw [Incomplete, List.take_append_of_le_length hlen, List.length_append] at h
  obtain ⟨hlarge, hsmall, hless⟩ := h (by omega)
  exact ⟨hlarge, hsmall, by omega⟩

theorem Frame.incomplete_or_whole {f : Frame} {more : Bytes} (h : x ++ y = f.wire ++ more) :
    Incomplete x ∨ ∃ rest, x = f.wire ++ rest ∧ rest ++ y = more := by
  by_cases hlt : x.length < f.wire.length
  · left
    intro hfour
    obtain ⟨hsize, -, -, hlen⟩ := f.wire_facts more
    rw [← h, List.take_append_of_le_length hfour] at hsize
    rw [hsize]
    exact ⟨f.large, f.small, by omega⟩
  · right
    rcases List.append_eq_append_iff.mp h with ⟨rest, hw, hy⟩ | ⟨rest, hx, hmore⟩
    · have hnil : rest = [] := by
        rw [hw, List.length_append] at hlt
        exact List.eq_nil_of_length_eq_zero (by omega)
      subst hnil
      exact ⟨[], by simpa using hw.symm, by simpa using hy⟩
    · exact ⟨rest, hx, hmore.symm⟩

/-- A beginning of the stream: some frames are visited, and an incomplete rest stays. -/
theorem cut_of_append (Inv : σ → Prop)
    (hv : ∀ f ∈ frames, ∀ s, Inv s → (visit f.body s).1 = none ∧ Inv (visit f.body s).2)
    (ht : Incomplete tail) (hs : Inv s) (hx : x ++ y = frames.flatMap Frame.wire ++ tail) :
    ∃ pre post rest, frames = pre ++ post ∧ rest ++ y = post.flatMap Frame.wire ++ tail ∧
      Incomplete rest ∧ Inv (pre.foldl (fun s f => (visit f.body s).2) s) ∧
      cut visit x s = (none, rest, pre.foldl (fun s f => (visit f.body s).2) s) := by
  induction frames generalizing x s with
  | nil =>
    have hrest : Incomplete x := .of_append (y := y) (by rwa [hx])
    exact ⟨[], [], x, rfl, hx, hrest, hs, cut_incomplete hrest⟩
  | cons f frames ih =>
    obtain ⟨hnone, hinv⟩ := hv f List.mem_cons_self s hs
    have hsplit := hx
    rw [List.flatMap_cons, List.append_assoc] at hsplit
    rcases Frame.incomplete_or_whole hsplit with hrest | ⟨more, rfl, hmore⟩
    · exact ⟨[], f :: frames, x, rfl, hx, hrest, hs, cut_incomplete hrest⟩
    · obtain ⟨pre, post, rest, rfl, hrest, hinc, hfold, hcut⟩ :=
        ih (fun g hg => hv g (List.mem_cons_of_mem _ hg)) hinv hmore
      exact ⟨f :: pre, post, rest, rfl, hrest, hinc, hfold, (cut_frame f more hnone).trans hcut⟩

/-- At the end of the stream all frames are visited. -/
theorem eq_tail {rest : Bytes} (hr : Incomplete rest) (h : rest = frames.flatMap Frame.wire ++ tail)
    : frames = [] ∧ rest = tail := by
  cases frames with
  | nil => exact ⟨rfl, h⟩
  | cons f frames =>
    rw [List.flatMap_cons, List.append_assoc] at h
    obtain ⟨hsize, -, -, hlen⟩ := f.wire_facts (frames.flatMap Frame.wire ++ tail)
    rw [h, Incomplete, hsize, List.length_append, hlen] at hr
    have hless := (hr (by omega)).2.2
    omega

theorem feed_eq {chunks : List Bytes} {buffer : Bytes}
    (hv : ∀ f ∈ frames, ∀ s, (visit f.body s).1 = none) (ht : Incomplete tail)
    (hb : Incomplete buffer) (hc : buffer ++ chunks.flatten = frames.flatMap Frame.wire ++ tail) :
    feed visit buffer s chunks =
      (none, tail, frames.foldl (fun s f => (visit f.body s).2) s) := by
  induction chunks generalizing buffer frames s with
  | nil =>
    rw [List.flatten_nil, List.append_nil] at hc
    obtain ⟨rfl, rfl⟩ := eq_tail hb hc
    rfl
  | cons data chunks ih =>
    rw [List.flatten_cons, ← List.append_assoc] at hc
    obtain ⟨pre, post, rest, rfl, hrest, hinc, -, hcut⟩ :=
      cut_of_append (fun _ => True) (fun f hf s _ => ⟨hv f hf s, trivial⟩) ht trivial hc
    rw [feed, kafkaFrames, hcut, List.foldl_append]
    exact ih (fun f hf => hv f (List.mem_append_right _ hf)) hinc hrest

end cut

/-! ## The law -/

/-- The connection underneath takes some of what it is given, and never fails. -/
def Accepts (accept : Nat → Bytes → Except String Nat) : Prop :=
  ∀ k wire, wire ≠ [] → ∃ n, accept k wire = .ok n ∧ 0 < n ∧ n ≤ wire.length

section writes

variable {P ω : Type} (lib : Lib P ω) {accept : Nat → Bytes → Except String Nat}

theorem writeAll_sent (hw : Accepts accept) (wire : Bytes) (c : Conn) :
    (writeAll accept wire c).1 = none ∧ (writeAll accept wire c).2.sent = c.sent ++ wire := by
  induction hlen : wire.length using Nat.strongRecOn generalizing wire c with
  | ind len ih =>
    rw [writeAll]
    by_cases hnil : wire = []
    · simp [hnil]
    · obtain ⟨n, hn, hpos, hle⟩ := hw c.calls wire hnil
      obtain ⟨hnone, hsent⟩ := ih (wire.drop n).length (by rw [List.length_drop]; omega)
        (wire.drop n) ⟨c.calls + 1, c.sent ++ wire.take n⟩ rfl
      simp only [if_neg hnil, hn, if_neg (Nat.ne_of_gt hpos)]
      exact ⟨hnone, by rw [hsent, List.append_assoc, List.take_append_drop]⟩

theorem visitWrite_sent (hw : Accepts accept) (f : Frame) {c : ObservedConn P ω}
    (hp : c.pending = ∅) : (visitWrite lib accept f.body c).1 = none ∧
      (visitWrite lib accept f.body c).2.pending = ∅ ∧
      (visitWrite lib accept f.body c).2.conn.sent = c.conn.sent ++ f.wire := by
  obtain ⟨hnone, hsent⟩ := writeAll_sent hw f.wire c.conn
  have herase : (∅ : GoMap Nat P).erase (beValue (f.body.take 4)) = ∅ := rfl
  simp only [visitWrite, hp, AList.lookup_empty, herase]
  rw [← Frame.wire, Prod.fst_eq_iff.mp hnone]
  exact ⟨rfl, rfl, hsent⟩

theorem foldl_visitWrite (hw : Accepts accept) (frames : List Frame) {c : ObservedConn P ω}
    (hp : c.pending = ∅) :
    (frames.foldl (fun c f => (visitWrite lib accept f.body c).2) c).conn.sent =
      c.conn.sent ++ frames.flatMap Frame.wire := by
  induction frames generalizing c with
  | nil => simp
  | cons f frames ih =>
    obtain ⟨-, hpending, hsent⟩ := visitWrite_sent lib hw f hp
    rw [List.foldl_cons, ih hpending, hsent, List.append_assoc, List.flatMap_cons]

theorem writes_eq (hw : Accepts accept) {chunks : List Bytes} {c : ObservedConn P ω}
    (ht : Incomplete tail) (hp : c.pending = ∅) (hb : Incomplete c.output)
    (hc : c.output ++ chunks.flatten = frames.flatMap Frame.wire ++ tail) :
    (c.writes lib accept chunks).1 = chunks.map (.ok ·.length) ∧
      (c.writes lib accept chunks).2.output = tail ∧
      (c.writes lib accept chunks).2.conn.sent = c.conn.sent ++ frames.flatMap Frame.wire := by
  induction chunks generalizing c frames with
  | nil =>
    rw [List.flatten_nil, List.append_nil] at hc
    obtain ⟨rfl, hout⟩ := eq_tail hb hc
    exact ⟨rfl, hout, by simp [ObservedConn.writes]⟩
  | cons b chunks ih =>
    rw [List.flatten_cons, ← List.append_assoc] at hc
    obtain ⟨pre, post, rest, rfl, hrest, hinc, hinv, hcut⟩ :=
      cut_of_append (fun c : ObservedConn P ω => c.pending = ∅)
        (fun f _ c hc => ⟨(visitWrite_sent lib hw f hc).1, (visitWrite_sent lib hw f hc).2.1⟩)
        ht hp hc
    have hsent := foldl_visitWrite lib hw pre hp
    simp only [ObservedConn.writes, ObservedConn.write, kafkaFrames, hcut, List.map_cons]
    obtain ⟨hns, hout, hall⟩ := ih (c := { pre.foldl (fun c f =>
      (visitWrite lib accept f.body c).2) c with output := rest }) hinv hinc hrest
    refine ⟨by rw [hns], hout, ?_⟩
    rw [hall, hsent, List.append_assoc, List.flatMap_append]

end writes

/-- However a stream is cut into chunks, exactly its frames are visited, in order, and its
incomplete tail stays in the buffer. A connection without pending requests sends on its whole
frames, as they are. -/
theorem chunks_do_not_show (frames : List Frame) {tail : Bytes} (ht : Incomplete tail)
    {chunks : List Bytes} (hc : chunks.flatten = frames.flatMap Frame.wire ++ tail) :
    (∀ (σ : Type) (visit : Bytes → σ → Option String × σ) (s : σ),
      (∀ f ∈ frames, ∀ s, (visit f.body s).1 = none) →
        feed visit [] s chunks =
          (none, tail, frames.foldl (fun s f => (visit f.body s).2) s)) ∧
      ∀ (P ω : Type) (lib : Lib P ω) (accept : Nat → Bytes → Except String Nat)
        (c : ObservedConn P ω), Accepts accept → c.output = [] → c.pending = ∅ →
          (c.writes lib accept chunks).1 = chunks.map (.ok ·.length) ∧
            (c.writes lib accept chunks).2.output = tail ∧
            (c.writes lib accept chunks).2.conn.sent =
              c.conn.sent ++ frames.flatMap Frame.wire := by
  have hnil : Incomplete [] := fun h => absurd h (by decide)
  refine ⟨fun σ visit s hv => feed_eq hv ht hnil hc, fun P ω lib accept c hw ho hp => ?_⟩
  exact writes_eq lib hw ht hp (ho ▸ hnil) (by rw [ho]; exact hc)

/-- Four bytes in one frame and the first byte of the next size, cut inside the first size. -/
theorem split_size_is_joined :
    feed (fun f s => (none, s ++ [f])) [] [] [[0, 0], [0, 4, 0, 3, 0], [9, 0]] =
      (none, [0], [[0, 3, 0, 9]]) :=
  (chunks_do_not_show [⟨[0, 3, 0, 9], by decide, by decide⟩] (fun h => absurd h (by decide))
    (by decide)).1 _ _ _ fun _ _ _ => rfl

end faultbox.kafka_frames
