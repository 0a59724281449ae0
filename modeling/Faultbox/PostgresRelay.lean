-- The Postgres proxy between a client and a server: it forwards one message of the client and
-- then waits for ReadyForQuery (forwardUntilReady). The law: it never waits for a
-- ReadyForQuery while a Sync of the client stands unread behind it. The law holds
-- exactly for sessions whose extended sequences are a Sync alone, none of them sent before
-- everything earlier was answered.
import Faultbox.GoText
import Faultbox.Runs

open gopath gotext runs

namespace faultbox.postgres_relay

/-! ## Messages -/

/-- One message of the protocol: its type byte and its body. -/
structure Message where
  msgType : UInt8
  body : Bytes
deriving DecidableEq

def query : UInt8 := 81
def sync : UInt8 := 83
def functionCall : UInt8 := 70
def authentication : UInt8 := 82
def readyForQuery : UInt8 := 90

def Message.calls (m : Message) : Bool :=
  m.msgType = query || m.msgType = sync || m.msgType = functionCall

def Message.readies (m : Message) : Bool := m.msgType = readyForQuery

def authNeedsClientReply (body : Bytes) : Bool :=
  4 ≤ body.length && [3, 5, 10, 11].contains (beValue (body.take 4))

/-! ## The server -/

/-- What happens at the server, in order. -/
inductive Event where
  | got (m : Message)
  | sent (m : Message)

def calls (history : List Event) : Nat :=
  history.countP fun e => match e with
    | .got m => m.calls
    | .sent _ => false

def readies (history : List Event) : Nat :=
  history.countP fun e => match e with
    | .got _ => false
    | .sent m => m.readies

/-- A server: what it may send after a history. It sends ReadyForQuery only after a Query, a Sync
or a FunctionCall that it has not answered yet. -/
structure Server where
  may : List Event → Message → Bool
  ready : ∀ h m, may h m = true → m.readies = true → readies h < calls h

/-! ## The client -/

inductive StepKind where
  | parse
  | bind
  | describe
  | execute

def StepKind.msgType : StepKind → UInt8
  | .parse => 80
  | .bind => 66
  | .describe => 68
  | .execute => 69

/-- A simple query, or the steps of an extended sequence, which ends with its Sync. -/
inductive Exchange where
  | simple (text : Bytes)
  | extended (steps : List (StepKind × Bytes))

def Exchange.messages : Exchange → List Message
  | .simple text => [⟨query, text⟩]
  | .extended steps => steps.map (fun p => ⟨p.1.msgType, p.2⟩) ++ [⟨sync, []⟩]

/-- An exchange, and how many earlier exchanges may be without an answer when the client
begins it: with 0 the client waits for all of them. -/
structure Request where
  window : Nat
  exchange : Exchange

/-! ## The three together -/

/-- Where the proxy is: it reads from the client, in `forwardUntilReady` from the server, or
there from the client for an answer to the server. -/
inductive Proxy where
  | reading
  | waiting
  | replying
deriving DecidableEq

/-- What is left of the exchange that the client is sending and the requests after it, how many
exchanges it began and how many ReadyForQuery it got, what it sent and the proxy did not
read, where the proxy is, what happened at the server, and what the server sent and the proxy
did not read. -/
structure State where
  current : List Message
  later : List Request
  begun : Nat
  answered : Nat
  queue : List Message
  proxy : Proxy
  history : List Event
  fromServer : List Message

def start (session : List Request) : State := ⟨[], session, 0, 0, [], .reading, [], []⟩

inductive Action where
  | send
  | relay
  | emit (m : Message)

def State.push (s : State) : Option State :=
  match s.current with
  | [] => none
  | m :: rest => some { s with current := rest, queue := s.queue ++ [m] }

/-- The client sends the next message of its exchange, or begins the next one. -/
def clientSend (s : State) : Option State :=
  match s.current, s.later with
  | _ :: _, _ => s.push
  | [], [] => none
  | [], r :: later =>
    if s.begun - s.answered ≤ r.window then
      { s with current := r.exchange.messages, later := later, begun := s.begun + 1 }.push
    else none

/-- The proxy reads a message of the client and writes it to the server. -/
def State.forward (s : State) : Option State :=
  match s.queue with
  | [] => none
  | m :: rest =>
    some { s with queue := rest, history := s.history ++ [.got m], proxy := .waiting }

/-- The proxy reads a message of the server and writes it to the client. -/
def State.deliver (s : State) : Option State :=
  match s.fromServer with
  | [] => none
  | m :: rest => some { s with
      fromServer := rest
      answered := s.answered + if m.readies then 1 else 0
      proxy :=
        if m.msgType = authentication ∧ authNeedsClientReply m.body = true then .replying
        else if m.readies then .reading
        else .waiting }

/-- One turn of the loop of `handleConn`, or of `forwardUntilReady`. -/
def proxyStep (s : State) : Option State :=
  match s.proxy with
  | .reading => s.forward
  | .waiting => s.deliver
  | .replying => s.forward

def step (server : Server) (s : State) : Action → Option State
  | .send => clientSend s
  | .relay => proxyStep s
  | .emit m =>
    if server.may s.history m then
      some { s with history := s.history ++ [.sent m], fromServer := s.fromServer ++ [m] }
    else none

def Reachable (server : Server) (session : List Request) (s : State) : Prop :=
  ∃ actions, run (step server) (start session) actions = some s

/-- The proxy waits for ReadyForQuery, and a Sync that was sent is not forwarded. -/
def State.Jammed (s : State) : Prop := s.proxy = .waiting ∧ ∃ m ∈ s.queue, m.msgType = sync

def RelaysSyncs (session : List Request) : Prop :=
  ∀ server s, Reachable server session s → ¬ s.Jammed

/-- An exchange of a single message. -/
def Exchange.Single : Exchange → Prop
  | .simple _ => True
  | .extended steps => steps = []

/-- A Sync alone, if it is one, is sent when everything is answered. -/
def Request.Patient (r : Request) : Prop :=
  match r.exchange with
  | .simple _ => True
  | .extended _ => r.window = 0

/-! ## Counting -/

variable {s t : State} {r : Request}

@[simp]
theorem calls_got (h : List Event) (m : Message) :
    calls (h ++ [.got m]) = calls h + if m.calls then 1 else 0 := by
  simp [calls, List.countP_append, List.countP_cons]

@[simp]
theorem calls_sent (h : List Event) (m : Message) : calls (h ++ [.sent m]) = calls h := by
  simp [calls, List.countP_append]

@[simp]
theorem readies_got (h : List Event) (m : Message) : readies (h ++ [.got m]) = readies h := by
  simp [readies, List.countP_append]

@[simp]
theorem readies_sent (h : List Event) (m : Message) :
    readies (h ++ [.sent m]) = readies h + if m.readies then 1 else 0 := by
  simp [readies, List.countP_append, List.countP_cons]

/-! ## Sessions of single messages -/

/-- What every state of a session keeps whose exchanges are single messages and whose Syncs are
patient. -/
structure Orderly (s : State) : Prop where
  current : s.current = []
  single : ∀ r ∈ s.later, r.exchange.Single
  patient : s.begun = 0 ∧ (∀ r ∈ s.later.tail, r.Patient) ∨ ∀ r ∈ s.later, r.Patient
  asks : ∀ m ∈ s.queue, m.calls = true
  begun : s.begun = calls s.history + s.queue.length
  answered : s.answered + s.fromServer.countP Message.readies = readies s.history
  credit : readies s.history ≤ calls s.history
  busy : s.proxy ≠ .reading → s.answered < calls s.history
  front : ∀ m ∈ s.queue.tail, m.msgType ≠ sync
  clear : s.proxy ≠ .reading → ∀ m ∈ s.queue, m.msgType ≠ sync

theorem Orderly.idle (h : Orderly s) (hall : s.begun - s.answered = 0) :
    s.queue = [] ∧ s.proxy = .reading := by
  have hb := h.begun
  have ha := h.answered
  have hc := h.credit
  have hq : s.queue.length = 0 := by omega
  refine ⟨List.eq_nil_of_length_eq_zero hq, ?_⟩
  by_contra hp
  have hbu := h.busy hp
  omega

theorem Exchange.Single.messages {e : Exchange} (h : e.Single) :
    ∃ m, e.messages = [m] ∧ m.calls = true ∧
      (m.msgType = sync → ∃ steps, e = .extended steps) := by
  cases e with
  | simple text => exact ⟨_, rfl, rfl, fun hs => absurd hs (by simp [query, sync])⟩
  | extended steps =>
    refine ⟨⟨sync, []⟩, ?_, rfl, fun _ => ⟨steps, rfl⟩⟩
    have hst : steps = [] := h
    rw [hst]
    rfl

theorem mem_tail_concat {m x : Message} {queue : List Message} (h : x ∈ (queue ++ [m]).tail) :
    x ∈ queue.tail ∨ x = m := by
  cases queue with
  | nil => simp at h
  | cons a queue => simpa using h

theorem Orderly.send (h : Orderly s) (hs : clientSend s = some t) : Orderly t := by
  unfold clientSend at hs
  rw [h.current] at hs
  cases hl : s.later with
  | nil => simp [hl] at hs
  | cons r later =>
    simp only [hl, Option.ite_none_right_eq_some] at hs
    obtain ⟨hw, hp⟩ := hs
    have hmem : r ∈ s.later := by simp [hl]
    obtain ⟨m, hm, hc, hsy⟩ := (h.single r hmem).messages
    simp only [State.push, hm, Option.some.injEq] at hp
    subst hp
    -- a Sync is sent into an empty queue
    have hi : m.msgType = sync → s.queue = [] ∧ s.proxy = .reading := by
      intro hk
      apply h.idle
      obtain ⟨steps, hext⟩ := hsy hk
      rcases h.patient with ⟨hz, -⟩ | hpa
      · omega
      · have hr := hpa r hmem
        unfold Request.Patient at hr
        rw [hext] at hr
        dsimp only at hr
        omega
    have hb := h.begun
    refine ⟨rfl, ?_, ?_, ?_, ?_, h.answered, h.credit, h.busy, ?_, ?_⟩
    · intro q hq
      exact h.single q (by simp [hl, hq])
    · right
      intro q hq
      rcases h.patient with ⟨-, ht⟩ | hpa
      · exact ht q (by simpa [hl] using hq)
      · exact hpa q (by simp [hl, hq])
    · intro x hx
      rcases List.mem_append.mp hx with hx | hx
      · exact h.asks x hx
      · rw [List.mem_singleton.mp hx]
        exact hc
    · simp only [List.length_append, List.length_singleton]
      omega
    · intro x hx
      rcases mem_tail_concat hx with ht | rfl
      · exact h.front x ht
      · intro hk
        rw [(hi hk).1] at hx
        simp at hx
    · intro hpr x hx
      rcases List.mem_append.mp hx with hx | hx
      · exact h.clear hpr x hx
      · rw [List.mem_singleton.mp hx]
        exact fun hk => hpr (hi hk).2

theorem Orderly.forward (h : Orderly s) (hs : s.forward = some t) : Orderly t := by
  unfold State.forward at hs
  cases hq : s.queue with
  | nil => simp [hq] at hs
  | cons m rest =>
    simp only [hq, Option.some.injEq] at hs
    subst hs
    have hc : m.calls = true := h.asks m (by simp [hq])
    have hb := h.begun
    have ha := h.answered
    have hcr := h.credit
    have hr : ∀ x ∈ rest, x.msgType ≠ sync := fun x hx => h.front x (by simpa [hq] using hx)
    simp only [hq, List.length_cons] at hb
    refine ⟨h.current, h.single, h.patient, ?_, ?_, ?_, ?_, ?_, ?_, fun _ => hr⟩
    · intro x hx
      exact h.asks x (by simp [hq, hx])
    · simp only [calls_got, hc, if_true]
      omega
    · simpa using ha
    · simp only [calls_got, readies_got, hc, if_true]
      omega
    · intro _
      simp only [calls_got, hc, if_true]
      omega
    · intro x hx
      exact hr x (List.mem_of_mem_tail hx)

theorem Orderly.deliver (h : Orderly s) (hp : s.proxy = .waiting) (hs : s.deliver = some t) :
    Orderly t := by
  unfold State.deliver at hs
  have hw : s.proxy ≠ .reading := by simp [hp]
  cases hse : s.fromServer with
  | nil => simp [hse] at hs
  | cons m rest =>
    simp only [hse, Option.some.injEq] at hs
    subst hs
    have ha := h.answered
    rw [hse, List.countP_cons] at ha
    refine ⟨h.current, h.single, h.patient, h.asks, h.begun, ?_, h.credit, ?_, h.front,
      fun _ => h.clear hw⟩
    · dsimp only
      omega
    · intro hnot
      have hb := h.busy hw
      -- a ReadyForQuery brings the proxy back to its client
      have hr : m.readies = false := by
        by_contra hr
        rw [Bool.not_eq_false] at hr
        have hk : m.msgType ≠ authentication := by
          intro hau
          simp [Message.readies, hau, authentication, readyForQuery] at hr
        simp [hk, hr] at hnot
      simpa [hr] using hb

theorem Orderly.step {server : Server} {a : Action} (h : Orderly s)
    (hs : step server s a = some t) : Orderly t := by
  cases a with
  | send => exact h.send hs
  | relay =>
    simp only [postgres_relay.step, proxyStep] at hs
    cases hp : s.proxy with
    | reading => exact h.forward (by simpa [hp] using hs)
    | waiting => exact h.deliver hp (by simpa [hp] using hs)
    | replying => exact h.forward (by simpa [hp] using hs)
  | emit m =>
    simp only [postgres_relay.step, Option.ite_none_right_eq_some, Option.some.injEq] at hs
    obtain ⟨hmay, rfl⟩ := hs
    have ha := h.answered
    have hc := h.credit
    refine ⟨h.current, h.single, h.patient, h.asks, ?_, ?_, ?_, ?_, h.front, h.clear⟩
    · simpa using h.begun
    · simp only [List.countP_append, List.countP_cons, List.countP_nil, readies_sent]
      omega
    · rw [readies_sent, calls_sent]
      split
      · rename_i hr
        exact server.ready _ _ hmay hr
      · exact hc
    · simpa using h.busy

theorem orderly_start {session : List Request} (hs : ∀ r ∈ session, r.exchange.Single)
    (hp : ∀ r ∈ session.tail, r.Patient) : Orderly (start session) := by
  refine ⟨rfl, hs, .inl ⟨rfl, hp⟩, ?_, rfl, rfl, ?_, ?_, ?_, ?_⟩
  all_goals simp [start, readies]

/-! ## Ways into a jam -/

def idleReady : Message := ⟨readyForQuery, [73]⟩

/-- A server that does nothing but answer. -/
def promptServer : Server where
  may h m := m = idleReady && readies h < calls h
  ready := by
    intro h m hmay _
    simp only [Bool.and_eq_true, decide_eq_true_eq] at hmay
    exact hmay.2

def between (later : List Request) (n : Nat) (history : List Event) : State :=
  ⟨[], later, n, n, [], .reading, history, []⟩

/-- A run of the prompt server into a jam. -/
def Jams (s : State) : Prop :=
  ∃ actions t, run (step promptServer) s actions = some t ∧ t.Jammed

theorem Jams.of_run {actions : List Action} (h : run (step promptServer) s actions = some t)
    (hj : Jams t) : Jams s := by
  obtain ⟨more, u, hrun, hja⟩ := hj
  exact ⟨actions ++ more, u, (run_append h more).trans hrun, hja⟩

theorem run_single (hr : r.exchange.Single) (later : List Request) (n : Nat) {history : List Event}
    (hh : readies history = calls history) : ∃ actions history', readies history' = calls history' ∧
      run (step promptServer) (between (r :: later) n history) actions =
        some (between later (n + 1) history') := by
  obtain ⟨m, hm, hc, -⟩ := hr.messages
  have hre : idleReady.readies = true := rfl
  have hmay : promptServer.may (history ++ [.got m]) idleReady = true := by
    simp [promptServer, hh, hc]
  have hk : idleReady.msgType ≠ authentication := by decide
  refine ⟨[.send, .relay, .emit idleReady, .relay], history ++ [.got m] ++ [.sent idleReady],
    ?_, ?_⟩
  · rw [readies_sent, readies_got, calls_sent, calls_got, hh, hc, hre]
  · simp only [run, step, between, clientSend, State.push, hm, proxyStep, State.forward, hmay,
      State.deliver, hre, hk, Option.bind_some, if_true, Nat.sub_self, Nat.zero_le,
      List.nil_append, false_and, if_false]

theorem run_sends (server : Server) (ms : List Message) (s : State) (hs : s.current = ms) :
    run (step server) s (List.replicate ms.length .send) =
      some { s with current := [], queue := s.queue ++ ms } := by
  induction ms generalizing s with
  | nil =>
    obtain ⟨current, later, begun, answered, queue, proxy, history, fromServer⟩ := s
    dsimp only at hs
    subst hs
    simp [run]
  | cons m ms ih =>
    have hse : step server s .send = some { s with current := ms, queue := s.queue ++ [m] } := by
      simp [step, clientSend, State.push, hs]
    have hr := ih { s with current := ms, queue := s.queue ++ [m] } rfl
    rw [List.length_cons, List.replicate_succ, run, hse, Option.bind_some, hr]
    simp

theorem jams_steps (window : Nat) (first : StepKind × Bytes) (steps : List (StepKind × Bytes))
    (later : List Request) (n : Nat) (history : List Event) :
    Jams (between (⟨window, .extended (first :: steps)⟩ :: later) n history) := by
  have hb : run (step promptServer)
      (between (⟨window, .extended (first :: steps)⟩ :: later) n history) [.send, .relay] =
      some ⟨(Exchange.extended steps).messages, later, n + 1, n, [], .waiting,
        history ++ [.got ⟨first.1.msgType, first.2⟩], []⟩ := by
    simp [run, step, between, clientSend, State.push, Exchange.messages, proxyStep, State.forward]
  refine Jams.of_run hb ⟨_, _, run_sends promptServer _ _ rfl, rfl, ⟨sync, []⟩, ?_, rfl⟩
  simp [Exchange.messages]

theorem jams_ahead (hr : r.exchange.Single) {window : Nat} (hw : window ≠ 0) (later : List Request)
    (n : Nat) (history : List Event) :
    Jams (between (r :: ⟨window, .extended []⟩ :: later) n history) := by
  obtain ⟨m, hm, -, -⟩ := hr.messages
  have hro : n + 1 - n ≤ window := by omega
  refine ⟨[.send, .relay, .send],
    ⟨[], later, n + 2, n, [⟨sync, []⟩], .waiting, history ++ [.got m], []⟩, ?_, rfl,
    ⟨sync, []⟩, by simp, rfl⟩
  have hme : (Exchange.extended []).messages = [⟨sync, []⟩] := rfl
  simp only [run, step, between, clientSend, State.push, hm, hme, proxyStep, State.forward,
    hro, Option.bind_some, if_true, Nat.sub_self, Nat.zero_le, List.nil_append]

theorem not_single_iff {e : Exchange} : ¬ e.Single ↔ ∃ p steps, e = .extended (p :: steps) := by
  cases e with
  | simple text => simp [Exchange.Single]
  | extended steps => cases steps <;> simp [Exchange.Single]

theorem not_patient_iff : ¬ r.Patient ↔ ∃ steps, r.exchange = .extended steps ∧ r.window ≠ 0 := by
  unfold Request.Patient
  cases r.exchange with
  | simple text => simp
  | extended steps => simp

/-- A session that is not patient, or has an exchange of more messages, can be brought into a
jam: up to the first such request everything is answered in turn. -/
theorem jams_between {later : List Request} (n : Nat) {history : List Event}
    (hh : readies history = calls history)
    (h : ¬ ((∀ r ∈ later, r.exchange.Single) ∧ ∀ r ∈ later.tail, r.Patient)) :
    Jams (between later n history) := by
  induction later generalizing n history with
  | nil => simp at h
  | cons r later ih =>
    by_cases hr : r.exchange.Single
    · by_cases hre : (∀ r ∈ later, r.exchange.Single) ∧ ∀ r ∈ later.tail, r.Patient
      · -- the second request is the one that does not wait
        cases later with
        | nil => simp [hr] at h
        | cons q later =>
          have hq : ¬ q.Patient := by
            intro hq
            apply h
            refine ⟨List.forall_mem_cons.mpr ⟨hr, hre.1⟩, ?_⟩
            exact List.forall_mem_cons.mpr ⟨hq, hre.2⟩
          obtain ⟨steps, hext, hw⟩ := not_patient_iff.mp hq
          have hs : steps = [] := by
            have hsi := hre.1 q List.mem_cons_self
            rwa [hext] at hsi
          obtain ⟨window, exchange⟩ := q
          dsimp only at hext hw
          subst hext hs
          exact jams_ahead hr hw later n history
      · obtain ⟨actions, history', hh', hrun⟩ := run_single hr later n hh
        exact Jams.of_run hrun (ih (n + 1) hh' hre)
    · obtain ⟨p, steps, hext⟩ := not_single_iff.mp hr
      obtain ⟨window, exchange⟩ := r
      dsimp only at hext
      subst hext
      exact jams_steps window p steps later n history

/-! ## The law -/

/-- No Sync is left unread behind the proxy's wait exactly when every exchange is a single
message and every Sync but a first one is sent with all answers in. -/
theorem relaysSyncs_iff (session : List Request) :
    RelaysSyncs session ↔
      (∀ r ∈ session, r.exchange.Single) ∧ ∀ r ∈ session.tail, r.Patient := by
  constructor
  · intro h
    by_contra hnot
    have hst : readies [] = calls [] := rfl
    obtain ⟨actions, t, hrun, hj⟩ := jams_between 0 hst hnot
    exact h promptServer t ⟨actions, hrun⟩ hj
  · rintro ⟨hsi, hp⟩ server s ⟨actions, hrun⟩ ⟨hpr, m, hm, hsy⟩
    have ho : Orderly s := run_preserves Orderly (fun _ _ _ hste hs => hs.step hste) hrun
      (orderly_start hsi hp)
    exact ho.clear (by simp [hpr]) m hm hsy

def prepared : Exchange :=
  .extended [(.parse, bytes "\x00SELECT 1\x00\x00\x00"), (.bind, List.replicate 8 0),
    (.describe, bytes "P\x00"), (.execute, List.replicate 5 0)]

/-- The Parse is at the server, the rest of the sequence stands unread, and nothing can happen
any more. -/
theorem sync_never_read :
    (∃ s, Reachable promptServer [⟨0, prepared⟩] s ∧ s.Jammed ∧
      ∀ a, step promptServer s a = none) ∧ ¬ RelaysSyncs [⟨0, prepared⟩] := by
  have hr : ∃ s, Reachable promptServer [⟨0, prepared⟩] s ∧ s.Jammed ∧
      ∀ a, step promptServer s a = none := by
    refine ⟨_, ⟨[.send, .relay, .send, .send, .send, .send], rfl⟩, ⟨rfl, ⟨sync, []⟩, ?_, rfl⟩, ?_⟩
    · simp
    · intro a
      cases a with
      | send => rfl
      | relay => rfl
      | emit m =>
        have hmay : ∀ body, promptServer.may [.got ⟨StepKind.parse.msgType, body⟩] m = false := by
          intro body
          simp [promptServer, calls, Message.calls, StepKind.msgType, query, sync, functionCall]
        exact if_neg (Bool.eq_false_iff.mp (hmay _))
  refine ⟨hr, ?_⟩
  obtain ⟨s, hs, hj, -⟩ := hr
  exact fun h => h promptServer s hs hj

end faultbox.postgres_relay
