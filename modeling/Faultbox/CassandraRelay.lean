-- The Cassandra proxy writes to its client from two goroutines: io.Copy passes the server's bytes
-- on as they come, and the request loop answers a request with an injected ERROR frame, its header
-- and its body in two writes. The law: the client sees whole frames in every run that injects an
-- error only between two response frames and copies nothing between its two writes.
import Faultbox.GoText
import Faultbox.Runs

open gopath gotext runs

namespace faultbox.cassandra_relay

/-! ## Frames -/

/-- A row of complete frames: nine bytes, the last four of them the length of what follows. -/
inductive Whole : Bytes → Prop
  | nil : Whole []
  | cons {header body rest : Bytes} : header.length = 9 →
    body.length = beValue (header.drop 5) → Whole rest → Whole (header ++ (body ++ rest))

theorem Whole.append {a b : Bytes} (ha : Whole a) (hb : Whole b) : Whole (a ++ b) := by
  induction ha with
  | nil => exact hb
  | cons hh hl _ ih =>
    rw [List.append_assoc, List.append_assoc]
    exact .cons hh hl ih

/-- Complete frames in front can be taken away. -/
theorem Whole.cancel {a b : Bytes} (ha : Whole a) (h : Whole (a ++ b)) : Whole b := by
  induction ha with
  | nil => exact h
  | @cons header body rest hh hl _ ih =>
    rw [List.append_assoc, List.append_assoc] at h
    generalize hs : header ++ (body ++ (rest ++ b)) = s at h
    cases h with
    | nil =>
      have hz := congrArg List.length hs
      simp only [List.length_append, List.length_nil] at hz
      omega
    | cons hh' hl' hr =>
      obtain ⟨rfl, ht⟩ := List.append_inj hs (hh.trans hh'.symm)
      obtain ⟨-, rfl⟩ := List.append_inj ht (hl.trans hl'.symm)
      exact ih hr

/-- The first frame is all there, and whole frames follow it. -/
theorem Whole.first {s : Bytes} (h : Whole s) (hne : s ≠ []) :
    9 + beValue ((s.take 9).drop 5) ≤ s.length ∧
      Whole (s.drop (9 + beValue ((s.take 9).drop 5))) := by
  cases h with
  | nil => exact absurd rfl hne
  | @cons header body rest hh hl hr =>
    rw [List.take_left' hh, ← hl, ← List.drop_drop, List.drop_left' hh, List.drop_left]
    refine ⟨?_, hr⟩
    simp only [List.length_append]
    omega

/-! ## The proxy -/

def cqlOpError : UInt8 := 0x00
def cqlOpQuery : UInt8 := 0x07
def cqlOpExecute : UInt8 := 0x0A
def cqlOpBatch : UInt8 := 0x0D
def cqlResponseFlag : UInt8 := 0x80

/-- A request frame, and the text of the error rule that fires for it. -/
structure Request where
  version : UInt8
  flags : UInt8
  streamID : Nat
  opcode : UInt8
  body : Bytes
  fired : Option Bytes

def Request.header (r : Request) : Bytes :=
  [r.version, r.flags] ++ bigEndian 2 r.streamID ++ [r.opcode] ++ bigEndian 4 r.body.length

/-- The message of the error that the request is answered with, if it is. -/
def Request.answer (r : Request) : Option Bytes :=
  if r.opcode = cqlOpQuery ∨ r.opcode = cqlOpExecute ∨ r.opcode = cqlOpBatch then
    r.fired.map fun e => if e = [] then bytes "injected fault" else e
  else none

def errorBody (msg : Bytes) : Bytes := [0, 0, 0, 0] ++ bigEndian 2 msg.length ++ msg

def errorHeader (version : UInt8) (streamID : Nat) (body : Bytes) : Bytes :=
  [version ||| cqlResponseFlag, 0] ++ bigEndian 2 streamID ++ [cqlOpError] ++
    bigEndian 4 body.length

structure State where
  /-- What io.Copy will still read, read by read. -/
  chunks : List Bytes
  requests : List Request
  /-- The second write of `sendCassandraError`, between the two. -/
  body : Option Bytes
  /-- What io.Copy has written. -/
  copied : Bytes
  client : Bytes
  server : Bytes

/-- The goroutine that writes next. -/
inductive Act where
  | copy
  | request
deriving DecidableEq

def step (s : State) : Act → Option State
  | .copy =>
    match s.chunks with
    | [] => none
    | chunk :: rest =>
      some { s with chunks := rest, copied := s.copied ++ chunk, client := s.client ++ chunk }
  | .request =>
    match s.body with
    | some body => some { s with body := none, client := s.client ++ body }
    | none =>
      match s.requests with
      | [] => none
      | r :: rest =>
        match r.answer with
        | some msg =>
          some { s with
            requests := rest
            body := some (errorBody msg)
            client := s.client ++ errorHeader r.version r.streamID (errorBody msg) }
        | none => some { s with requests := rest, server := s.server ++ (r.header ++ r.body) }

/-- What the two sides send: the response frames, cut into reads in any way. -/
structure Session where
  chunks : List Bytes
  requests : List Request
  whole : Whole chunks.flatten

def Session.start (c : Session) : State := ⟨c.chunks, c.requests, none, [], [], []⟩

def State.Done (s : State) : Prop := s.chunks = [] ∧ s.requests = [] ∧ s.body = none

/-! ## Runs -/

/-- An error starts after whole response frames, and nothing is copied into it. -/
def Careful (s : State) : Act → Prop
  | .copy => s.body = none
  | .request => s.body = none → ∀ r ∈ s.requests.head?, ∀ msg ∈ r.answer,
    Whole s.copied ∧ (errorBody msg).length < 256 ^ 4

def Orderly : State → List Act → Prop
  | _, [] => True
  | s, a :: acts => Careful s a ∧ ∀ t, step s a = some t → Orderly t acts

/-- Besides whole frames the client has a begun frame: of the responses, or an injected one. -/
structure Aligned (s : State) : Prop where
  between : s.body = none → ∃ whole front tail, Whole whole ∧ Whole front ∧
    s.client = whole ++ tail ∧ s.copied = front ++ tail
  within : ∀ body, s.body = some body → ∃ whole header, Whole whole ∧ Whole (header ++ body) ∧
    s.client = whole ++ header ∧ Whole s.copied

theorem whole_error (version : UInt8) (streamID : Nat) {msg : Bytes}
    (h : (errorBody msg).length < 256 ^ 4) :
    Whole (errorHeader version streamID (errorBody msg) ++ errorBody msg) := by
  have hl : (errorBody msg).length =
      beValue ((errorHeader version streamID (errorBody msg)).drop 5) := by
    have hd : (errorHeader version streamID (errorBody msg)).drop 5 =
        bigEndian 4 (errorBody msg).length := by
      unfold errorHeader
      exact List.drop_left' (by simp)
    rw [hd, beValue_bigEndian h]
  have hw := @Whole.cons _ _ [] (by simp [errorHeader]) hl .nil
  rwa [List.append_nil] at hw

variable {a : Act} {s t : State}

theorem step_cases (h : step s a = some t) :
    (∃ chunk rest, a = .copy ∧ s.chunks = chunk :: rest ∧
      t = { s with chunks := rest, copied := s.copied ++ chunk, client := s.client ++ chunk }) ∨
    (∃ body, a = .request ∧ s.body = some body ∧
      t = { s with body := none, client := s.client ++ body }) ∨
    (∃ r rest msg, a = .request ∧ s.body = none ∧ s.requests = r :: rest ∧ r.answer = some msg ∧
      t = { s with
        requests := rest
        body := some (errorBody msg)
        client := s.client ++ errorHeader r.version r.streamID (errorBody msg) }) ∨
    (∃ r rest, a = .request ∧ s.body = none ∧ s.requests = r :: rest ∧ r.answer = none ∧
      t = { s with requests := rest, server := s.server ++ (r.header ++ r.body) }) := by
  cases a with
  | copy =>
    rw [step] at h
    split at h
    · cases h
    · rename_i chunk rest hc
      exact .inl ⟨chunk, rest, rfl, hc, (Option.some.inj h).symm⟩
  | request =>
    right
    rw [step] at h
    split at h
    · rename_i body hb
      exact .inl ⟨body, rfl, hb, (Option.some.inj h).symm⟩
    · rename_i hb
      split at h
      · cases h
      · rename_i r rest hr
        split at h
        · rename_i msg hm
          exact .inr (.inl ⟨r, rest, msg, rfl, hb, hr, hm, (Option.some.inj h).symm⟩)
        · rename_i hm
          exact .inr (.inr ⟨r, rest, rfl, hb, hr, hm, (Option.some.inj h).symm⟩)

/-- Whole response frames leave no begun one. -/
theorem Aligned.whole_client (h : Aligned s) (hb : s.body = none) (hr : Whole s.copied) :
    Whole s.client := by
  obtain ⟨whole, front, tail, hw, hf, hc, hcop⟩ := h.between hb
  rw [hcop] at hr
  rw [hc]
  exact hw.append (hf.cancel hr)

theorem aligned_step (h : Aligned s) (hc : Careful s a) (hs : step s a = some t) : Aligned t := by
  obtain ⟨chunk, rest, rfl, -, rfl⟩ | ⟨body, rfl, hb, rfl⟩ | ⟨r, rest, msg, rfl, hb, hr, hm, rfl⟩ |
    ⟨r, rest, rfl, hb, -, -, rfl⟩ := step_cases hs
  · have hn : s.body = none := hc
    obtain ⟨whole, front, tail, hw, hf, hcl, hcop⟩ := h.between hn
    refine ⟨fun _ => ⟨whole, front, tail ++ chunk, hw, hf, ?_, ?_⟩, fun body hb => ?_⟩
    · rw [hcl, List.append_assoc]
    · rw [hcop, List.append_assoc]
    · exact absurd (hn.symm.trans hb) (by simp)
  · obtain ⟨whole, header, hw, hf, hcl, hcop⟩ := h.within body hb
    refine ⟨fun _ => ⟨s.client ++ body, s.copied, [], ?_, hcop, ?_, ?_⟩, fun body hb => ?_⟩
    · rw [hcl, List.append_assoc]
      exact hw.append hf
    · rw [List.append_nil]
    · rw [List.append_nil]
    · cases hb
  · obtain ⟨hcop, hl⟩ := hc hb r (by rw [hr]; rfl) msg hm
    refine ⟨fun hn => ?_, fun body hb' => ?_⟩
    · cases hn
    · cases hb'
      exact ⟨s.client, _, h.whole_client hb hcop, whole_error r.version r.streamID hl, rfl, hcop⟩
  · exact ⟨h.between, h.within⟩

/-- The bytes that were and will be copied stay the same. -/
theorem copied_step (hs : step s a = some t) :
    t.copied ++ t.chunks.flatten = s.copied ++ s.chunks.flatten := by
  obtain ⟨chunk, rest, rfl, hc, rfl⟩ | ⟨body, rfl, -, rfl⟩ | ⟨r, rest, msg, rfl, -, -, -, rfl⟩ |
    ⟨r, rest, rfl, -, -, -, rfl⟩ := step_cases hs
  · rw [hc, List.flatten_cons, List.append_assoc]
  all_goals rfl

theorem aligned_run {acts : List Act} (h : Aligned s) (ho : Orderly s acts)
    (hr : run step s acts = some t) : Aligned t := by
  induction acts generalizing s with
  | nil =>
    cases hr
    exact h
  | cons a acts ih =>
    obtain ⟨u, hu, hr⟩ := Option.bind_eq_some_iff.mp hr
    exact ih (aligned_step h ho.1 hu) (ho.2 u hu) hr

/-- The law of the client's stream. -/
theorem client_sees_whole_frames (c : Session) (acts : List Act) (t : State)
    (hr : run step c.start acts = some t) (hd : t.Done) (ho : Orderly c.start acts) :
    Whole t.client := by
  have hs : Aligned c.start :=
    ⟨fun _ => ⟨[], [], [], .nil, .nil, rfl, rfl⟩, fun body hb => (by cases hb)⟩
  have hcop : t.copied ++ t.chunks.flatten = c.chunks.flatten :=
    run_preserves (fun s => s.copied ++ s.chunks.flatten = c.chunks.flatten)
      (fun s a t hs h => (copied_step hs).trans h) hr rfl
  rw [hd.1, List.flatten_nil, List.append_nil] at hcop
  exact (aligned_run hs ho hr).whole_client hd.2.2 (hcop ▸ c.whole)

/-! ## A response in two reads -/

def resultHeader : Bytes := [0x84, 0, 0, 0, 8, 0, 0, 0, 2]

theorem whole_result : Whole [resultHeader, [1, 2]].flatten := .cons rfl rfl .nil

/-- A QUERY on stream 1, answered with an error, while a RESULT of stream 0 comes in. -/
def crossing : Session :=
  ⟨[resultHeader, [1, 2]], [⟨4, 0, 1, 7, [], some (bytes "x")⟩], whole_result⟩

theorem Orderly.cons {acts : List Act} (hc : Careful s a) (hs : step s a = some t)
    (h : Orderly t acts) : Orderly s (a :: acts) := by
  refine ⟨hc, fun u hu => ?_⟩
  obtain rfl := Option.some.inj (hs.symm.trans hu)
  exact h

theorem error_after_result : ∃ t,
    run step crossing.start [.copy, .copy, .request, .request] = some t ∧ t.Done ∧
      Orderly crossing.start [.copy, .copy, .request, .request] ∧ Whole t.client := by
  have ho : Orderly crossing.start [.copy, .copy, .request, .request] := by
    refine .cons rfl rfl (.cons rfl rfl (.cons ?_ rfl (.cons ?_ rfl trivial)))
    · intro _ r hr msg hm
      cases hr
      cases hm
      exact ⟨whole_result, by decide⟩
    · intro hb
      cases hb
  exact ⟨_, rfl, ⟨rfl, rfl, rfl⟩, ho,
    client_sees_whole_frames crossing _ _ rfl ⟨rfl, rfl, rfl⟩ ho⟩

/-- The error is written while half of the response is out. -/
theorem error_inside_result : ∃ t,
    run step crossing.start [.copy, .request, .request, .copy] = some t ∧ t.Done ∧
      ¬ Whole t.client := by
  refine ⟨_, rfl, ⟨rfl, rfl, rfl⟩, fun h => ?_⟩
  obtain ⟨-, h⟩ := h.first (by decide)
  obtain ⟨hl, -⟩ := h.first (by decide)
  exact absurd hl (by decide)

end faultbox.cassandra_relay
