-- The gRPC proxy without rules (forwardRPC): one goroutine copies the messages of the client, the
-- handler copies the replies, and where the upstream ends well it waits for the goroutine. The
-- law: the client observes the call as it would without the proxy, and nobody waits for the
-- other. It holds exactly where there is no metadata to carry, no message is larger than the
-- proxy receives, and an upstream that ends well takes all messages of a client that closes its
-- side by itself.
import Faultbox.PathMatch
import Faultbox.Runs

open gopath runs

namespace faultbox.grpc_relay

/-! ## Calls -/

/-- The final status of a call. -/
inductive Status where
  | ok
  | error (code : Nat) (message : String) (details : Bytes)
deriving DecidableEq

/-- The status that the server library makes of an `io.EOF` that a handler returns. -/
def Status.ofEof : Status := .error 2 "EOF" []

/-- The largest message that a stream receives where the options set no size. -/
def maxReceive : Nat := 4194304

/-- The status of a stream that is given a larger message. -/
def Status.tooLarge (size : Nat) : Status :=
  .error 8 ("grpc: received message larger than max (" ++ toString size ++ " vs. 4194304)") []

abbrev Metadata : Type := List (String × String)

/-- A call of any streaming kind, with messages of protobuf: what the two sides send, in any order
to one another, how many messages the upstream takes before it finishes, whether it waits for the
end of the client's side, and whether the client ends its side by itself or only with the final
status. The two sides themselves take messages of any size. -/
structure Call where
  messages : List Bytes
  replies : List Bytes
  halfCloses : Bool
  waitsEnd : Bool
  taken : Nat
  header : Metadata
  trailer : Metadata
  status : Status
  taken_le : taken ≤ messages.length
  ends : waitsEnd = true → halfCloses = true ∧ taken = messages.length

/-- What a client observes of a call. -/
structure Observed where
  replies : List Bytes
  header : Metadata
  trailer : Metadata
  status : Status

def Call.direct (c : Call) : Observed := ⟨c.replies, c.header, c.trailer, c.status⟩

/-! ## The proxy -/

/-- The goroutine for the client's messages: what it has put into `clientErr`. -/
inductive Copier where
  | running
  | closedSend
  | failedSend
  | failedRecv
deriving DecidableEq

/-- The handler: in its loop, in its wait for `clientErr`, or done, also where the server library
has ended the stream. -/
inductive Handler where
  | copying
  | joining
  | returned (st : Status)
deriving DecidableEq

/-- How many messages the client has sent, the goroutine has forwarded and the upstream has taken,
whether the client's side is ended, how many replies the upstream has sent and the handler has
forwarded, whether the upstream has finished, and where the two goroutines are. -/
structure State where
  sent : Nat
  ended : Bool
  forwarded : Nat
  taken : Nat
  replied : Nat
  relayed : Nat
  finished : Bool
  copier : Copier
  handler : Handler
deriving DecidableEq

def start : State := ⟨0, false, 0, 0, 0, 0, false, .running, .copying⟩

inductive Action where
  | clientSend
  | clientEnd
  | sendMsg
  | sendMsgEof
  | recvMsgFails
  | closeSend
  | upstreamTake
  | upstreamReply
  | upstreamFinish
  | relayReply
  | recvReplyFails
  | recvStatus
  | join

def sizeAt (messages : List Bytes) (i : Nat) : Nat := (messages[i]?.getD []).length

variable (c : Call)

def step (s : State) : Action → Option State
  | .clientSend => if s.sent < c.messages.length then some { s with sent := s.sent + 1 } else none
  | .clientEnd =>
    if s.ended = false ∧ s.sent = c.messages.length ∧ c.halfCloses = true then
      some { s with ended := true }
    else none
  -- a message goes out as long as the handler has not seen the end of the stream
  | .sendMsg =>
    if s.copier = .running ∧ s.forwarded < s.sent ∧ s.handler = .copying ∧
        sizeAt c.messages s.forwarded ≤ maxReceive then
      some { s with forwarded := s.forwarded + 1 }
    else none
  | .sendMsgEof =>
    if s.copier = .running ∧ s.forwarded < s.sent ∧ s.finished = true ∧
        sizeAt c.messages s.forwarded ≤ maxReceive then
      some { s with copier := .failedSend }
    else none
  -- an error other than the end of the client's side aborts the stream
  | .recvMsgFails =>
    if s.copier = .running ∧ s.forwarded < s.sent ∧
        (s.handler = .copying ∨ s.handler = .joining) ∧
        maxReceive < sizeAt c.messages s.forwarded then
      some { s with
        copier := .failedRecv
        handler := .returned (.tooLarge (sizeAt c.messages s.forwarded)) }
    else none
  | .closeSend =>
    if s.copier = .running ∧ s.forwarded = s.sent ∧ s.ended = true then
      some { s with copier := .closedSend }
    else none
  | .upstreamTake =>
    if s.finished = false ∧ s.taken < c.taken ∧ s.taken < s.forwarded then
      some { s with taken := s.taken + 1 }
    else none
  | .upstreamReply =>
    if s.finished = false ∧ s.replied < c.replies.length then
      some { s with replied := s.replied + 1 }
    else none
  | .upstreamFinish =>
    if s.finished = false ∧ s.replied = c.replies.length ∧ s.taken = c.taken ∧
        (c.waitsEnd = true → s.copier = .closedSend) then
      some { s with finished := true }
    else none
  | .relayReply =>
    if s.handler = .copying ∧ s.relayed < s.replied ∧
        sizeAt c.replies s.relayed ≤ maxReceive then
      some { s with relayed := s.relayed + 1 }
    else none
  | .recvReplyFails =>
    if s.handler = .copying ∧ s.relayed < s.replied ∧
        maxReceive < sizeAt c.replies s.relayed then
      some { s with handler := .returned (.tooLarge (sizeAt c.replies s.relayed)) }
    else none
  -- OK is the io.EOF after which the handler waits; any other status is returned at once
  | .recvStatus =>
    if s.handler = .copying ∧ s.finished = true ∧ s.relayed = s.replied then
      some { s with handler := if c.status = .ok then .joining else .returned c.status }
    else none
  | .join =>
    match s.handler, s.copier with
    | .joining, .closedSend => some { s with handler := .returned .ok }
    | .joining, .failedSend => some { s with handler := .returned .ofEof }
    | _, _ => none

/-- What the client has observed; `forwardRPC` sets no header and no trailer. -/
def State.observed (s : State) : Option Observed :=
  match s.handler with
  | .returned st => some ⟨c.replies.take s.relayed, [], [], st⟩
  | _ => none

/-- The upstream has finished, the client waits for the status, and the proxy for the client. -/
def State.Jammed (s : State) : Prop :=
  s.finished = true ∧ (s.sent = c.messages.length ∧ c.halfCloses = false) ∧
    s.handler = .joining ∧ s.copier = .running ∧ s.forwarded = s.sent ∧ s.ended = false

def Settled (s : State) : Prop := ∀ a, step c s a = none

def Reachable (s : State) : Prop := Leads (step c) start s

/-- Every run comes to an end, where the client has observed what it would without the proxy, and
nobody waits for the other. -/
def Call.Transparent : Prop :=
  (∃ s, Reachable c s ∧ Settled c s) ∧
    (∀ s, Reachable c s → Settled c s → s.observed c = some c.direct) ∧
    ∀ s, Reachable c s → ¬ s.Jammed c

/-! ## Ends of a run -/

variable {c}

def Copier.weight : Copier → Nat
  | .running => 1
  | _ => 0

def Handler.weight : Handler → Nat
  | .copying => 2
  | .joining => 1
  | .returned _ => 0

def State.weight (c : Call) (s : State) : Nat :=
  (c.messages.length - s.sent) + (!s.ended).toNat + (c.messages.length - s.forwarded) +
    (c.taken - s.taken) + (c.replies.length - s.replied) + (c.replies.length - s.relayed) +
    (!s.finished).toNat + s.copier.weight + s.handler.weight

/-- The first message that the proxy does not receive. -/
def Call.firstLarge (c : Call) : Option Bytes :=
  c.messages.find? fun m => decide (maxReceive < m.length)

/-- A message or a reply is too large, and a message is with this status. -/
def Call.CutBy (c : Call) (st : Status) : Prop :=
  (∃ m, c.firstLarge = some m ∧ st = .tooLarge m.length) ∨ ∃ r ∈ c.replies, maxReceive < r.length

/-- How a handler comes to the status it returns. -/
def Ended (c : Call) (s : State) (st : Status) : Prop :=
  (s.finished = true ∧ s.relayed = s.replied ∧
      (st = c.status ∨ c.status = .ok ∧ s.copier = .failedSend)) ∨ c.CutBy st

/-- The counts of a state in their order. -/
structure Ordered (c : Call) (s : State) : Prop where
  sent : s.sent ≤ c.messages.length
  forwarded : s.forwarded ≤ s.sent
  taken : s.taken ≤ s.forwarded
  takes : s.taken ≤ c.taken
  replied : s.replied ≤ c.replies.length
  relayed : s.relayed ≤ s.replied
  finished : s.finished = true → s.replied = c.replies.length ∧ s.taken = c.taken
  closed : s.copier = .closedSend → s.forwarded = c.messages.length
  failed : s.copier = .failedSend → s.finished = true ∧ s.forwarded < c.messages.length
  ended : s.ended = true → s.sent = c.messages.length ∧ c.halfCloses = true
  joining : s.handler = .joining → s.finished = true ∧ s.relayed = s.replied ∧ c.status = .ok
  passed : ∀ i < s.forwarded, sizeAt c.messages i ≤ maxReceive
  fit : ∀ i < s.relayed, sizeAt c.replies i ≤ maxReceive
  refused : s.copier = .failedRecv → ∃ st, s.handler = .returned st
  returned : ∀ st, s.handler = .returned st → Ended c s st

theorem ordered_start (c : Call) : Ordered c start := by
  constructor <;> simp [start]

theorem join_cases {s t : State} (h : step c s .join = some t) :
    ∃ st, s.handler = .joining ∧
      (s.copier = .closedSend ∧ st = .ok ∨ s.copier = .failedSend ∧ st = .ofEof) ∧
      t = { s with handler := .returned st } := by
  simp only [step] at h
  split at h
  · rename_i hj hc
    cases h
    exact ⟨.ok, hj, .inl ⟨hc, rfl⟩, rfl⟩
  · rename_i hj hc
    cases h
    exact ⟨.ofEof, hj, .inr ⟨hc, rfl⟩, rfl⟩
  · exact absurd h nofun

theorem sizeAt_of_lt {messages : List Bytes} {i : Nat} (hi : i < messages.length) :
    sizeAt messages i = messages[i].length := by
  simp [sizeAt, hi]

theorem firstLarge_of_passed {i : Nat} (hi : i < c.messages.length)
    (hp : ∀ j < i, sizeAt c.messages j ≤ maxReceive)
    (hbig : maxReceive < sizeAt c.messages i) :
    ∃ m, c.firstLarge = some m ∧ sizeAt c.messages i = m.length := by
  refine ⟨c.messages[i], ?_, sizeAt_of_lt hi⟩
  unfold Call.firstLarge
  rw [List.find?_eq_some_iff_getElem]
  refine ⟨decide_eq_true (sizeAt_of_lt hi ▸ hbig), i, hi, rfl, fun j hj => ?_⟩
  have hle := hp j hj
  rw [sizeAt_of_lt (Nat.lt_trans hj hi)] at hle
  simpa using hle

theorem exists_of_firstLarge {m : Bytes} (h : c.firstLarge = some m) :
    ∃ i < c.messages.length, sizeAt c.messages i = m.length ∧ maxReceive < m.length ∧
      ∀ j < i, sizeAt c.messages j ≤ maxReceive := by
  unfold Call.firstLarge at h
  rw [List.find?_eq_some_iff_getElem] at h
  obtain ⟨hbig, i, hi, rfl, hp⟩ := h
  refine ⟨i, hi, sizeAt_of_lt hi, of_decide_eq_true hbig, fun j hj => ?_⟩
  rw [sizeAt_of_lt (Nat.lt_trans hj hi)]
  simpa using hp j hj

/-- Nothing but the end of the upstream moves a handler that has not failed. -/
theorem Ended.of_running {s t : State} {st : Status} (h : Ended c s st)
    (hco : s.copier = .running) (hf : t.finished = s.finished) (hr : t.relayed = s.relayed)
    (hp : t.replied = s.replied) : Ended c t st := by
  rcases h with ⟨hfi, hall, hst | ⟨-, hfail⟩⟩ | hcut
  · exact .inl ⟨hf.trans hfi, hr.trans (hall.trans hp.symm), .inl hst⟩
  · rw [hco] at hfail
    cases hfail
  · exact .inr hcut

theorem Ended.cut {s : State} {st : Status} (h : Ended c s st) (ho : s.finished = false) :
    c.CutBy st := by
  rcases h with ⟨hfi, -⟩ | hcut
  · rw [ho] at hfi
    cases hfi
  · exact hcut

theorem Ordered.acts {s t : State} {a : Action} (h : Ordered c s)
    (hste : step c s a = some t) : Ordered c t := by
  have hse := h.sent
  have hf := h.forwarded
  have ht := h.taken
  have hr := h.replied
  have hre := h.relayed
  cases a with
  | clientSend =>
    obtain ⟨hlt, rfl⟩ := of_guard hste
    refine { h with sent := hlt, forwarded := Nat.le_succ_of_le hf, ended := ?_ }
    intro he
    have hall := (h.ended he).1
    omega
  | clientEnd =>
    obtain ⟨⟨-, hall, hc⟩, rfl⟩ := of_guard hste
    exact { h with ended := fun _ => ⟨hall, hc⟩ }
  | sendMsg =>
    obtain ⟨⟨hco, hlt, -, hfits⟩, rfl⟩ := of_guard hste
    exact { h with
      forwarded := hlt
      taken := Nat.le_succ_of_le ht
      closed := by simp [hco]
      failed := by simp [hco]
      passed := Nat.forall_lt_succ_right.mpr ⟨h.passed, hfits⟩ }
  | sendMsgEof =>
    obtain ⟨⟨hco, hlt, hfi, -⟩, rfl⟩ := of_guard hste
    exact { h with
      closed := nofun
      failed := fun _ => ⟨hfi, Nat.lt_of_lt_of_le hlt hse⟩
      refused := nofun
      returned := fun st hst => (h.returned st hst).of_running hco rfl rfl rfl }
  | recvMsgFails =>
    obtain ⟨⟨hco, hlt, -, hbig⟩, rfl⟩ := of_guard hste
    refine { h with
      closed := nofun
      failed := nofun
      joining := nofun
      refused := fun _ => ⟨_, rfl⟩
      returned := ?_ }
    intro st hst
    obtain ⟨m, hm, hsize⟩ := firstLarge_of_passed (Nat.lt_of_lt_of_le hlt hse) h.passed hbig
    exact .inr (.inl ⟨m, hm, (Handler.returned.inj hst).symm.trans (congrArg _ hsize)⟩)
  | closeSend =>
    obtain ⟨⟨hco, hall, he⟩, rfl⟩ := of_guard hste
    exact { h with
      closed := fun _ => hall.trans (h.ended he).1
      failed := nofun
      refused := nofun
      returned := fun st hst => (h.returned st hst).of_running hco rfl rfl rfl }
  | upstreamTake =>
    obtain ⟨⟨ho, hlt, hlt'⟩, rfl⟩ := of_guard hste
    exact { h with taken := hlt', takes := hlt, finished := by simp [ho] }
  | upstreamReply =>
    obtain ⟨⟨ho, hlt⟩, rfl⟩ := of_guard hste
    refine { h with
      replied := hlt
      relayed := Nat.le_succ_of_le hre
      finished := by simp [ho]
      joining := ?_
      returned := fun st hst => .inr ((h.returned st hst).cut ho) }
    intro hj
    simp [(h.joining hj).1] at ho
  | upstreamFinish =>
    obtain ⟨⟨ho, hrep, hall, -⟩, rfl⟩ := of_guard hste
    exact { h with
      finished := fun _ => ⟨hrep, hall⟩
      failed := fun hfa => ⟨rfl, (h.failed hfa).2⟩
      joining := fun hj => ⟨rfl, (h.joining hj).2⟩
      returned := fun st hst => .inr ((h.returned st hst).cut ho) }
  | relayReply =>
    obtain ⟨⟨hcop, hlt, hfits⟩, rfl⟩ := of_guard hste
    exact { h with
      relayed := hlt
      joining := by simp [hcop]
      fit := Nat.forall_lt_succ_right.mpr ⟨h.fit, hfits⟩
      returned := by simp [hcop] }
  | recvReplyFails =>
    obtain ⟨⟨-, hlt, hbig⟩, rfl⟩ := of_guard hste
    have hin : s.relayed < c.replies.length := Nat.lt_of_lt_of_le hlt hr
    refine { h with joining := nofun, refused := fun _ => ⟨_, rfl⟩, returned := ?_ }
    intro st hst
    rw [sizeAt_of_lt hin] at hbig
    exact .inr (.inr ⟨_, List.getElem_mem hin, hbig⟩)
  | recvStatus =>
    obtain ⟨⟨hcop, hfi, hall⟩, rfl⟩ := of_guard hste
    refine { h with joining := ?_, refused := ?_, returned := ?_ }
    · intro hj
      refine ⟨hfi, hall, ?_⟩
      by_contra hok
      simp [hok] at hj
    · intro hre
      obtain ⟨st, hst⟩ := h.refused hre
      exact absurd (hcop.symm.trans hst) nofun
    · intro st hst
      dsimp only at hst
      split at hst
      · cases hst
      · exact .inl ⟨hfi, hall, .inl (Handler.returned.inj hst).symm⟩
  | join =>
    obtain ⟨st, hj, hco, rfl⟩ := join_cases hste
    obtain ⟨hfi, hall, hok⟩ := h.joining hj
    refine { h with joining := nofun, refused := fun _ => ⟨_, rfl⟩, returned := ?_ }
    intro st' hst
    obtain rfl := Handler.returned.inj hst
    rcases hco with ⟨-, rfl⟩ | ⟨hfail, -⟩
    · exact .inl ⟨hfi, hall, .inl hok.symm⟩
    · exact .inl ⟨hfi, hall, .inr ⟨hok, hfail⟩⟩

theorem Ordered.weight_lt {s t : State} {a : Action} (h : Ordered c s)
    (hst : step c s a = some t) : t.weight c < s.weight c := by
  have hse := h.sent
  have hr := h.replied
  unfold State.weight
  cases a with
  | clientSend | sendMsg | upstreamTake | upstreamReply | relayReply =>
    obtain ⟨hc, rfl⟩ := of_guard hst
    dsimp only
    omega
  | clientEnd | upstreamFinish =>
    obtain ⟨⟨hf, -⟩, rfl⟩ := of_guard hst
    simp only [hf, Bool.not_false, Bool.not_true, Bool.toNat_true, Bool.toNat_false]
    omega
  | sendMsgEof | closeSend =>
    obtain ⟨⟨hco, -⟩, rfl⟩ := of_guard hst
    simp only [hco, Copier.weight]
    omega
  | recvMsgFails =>
    obtain ⟨⟨hco, -⟩, rfl⟩ := of_guard hst
    simp only [hco, Copier.weight, Handler.weight]
    omega
  | recvReplyFails =>
    obtain ⟨⟨hh, -⟩, rfl⟩ := of_guard hst
    simp only [hh, Handler.weight]
    omega
  | recvStatus =>
    obtain ⟨⟨hh, -⟩, rfl⟩ := of_guard hst
    simp only [hh]
    split
    · simp only [Handler.weight]
      omega
    · simp only [Handler.weight]
      omega
  | join =>
    obtain ⟨st, hj, -, rfl⟩ := join_cases hst
    simp only [hj, Handler.weight]
    omega

theorem Reachable.ordered {s : State} (h : Reachable c s) : Ordered c s :=
  h.preserves (Ordered c) (fun _ _ _ hst hs => hs.acts hst) (ordered_start c)

theorem Reachable.exists_settled {s : State} (h : Reachable c s) :
    ∃ t, Leads (step c) s t ∧ Settled c t := by
  obtain ⟨as, t, -, hrun, hst⟩ := exists_stuck (State.weight c)
    (fun _ _ _ hste hs => Ordered.acts hs hste) (fun _ => True)
    (fun _ _ _ hs _ hste => hs.weight_lt hste) h.ordered
  exact ⟨t, ⟨as, hrun⟩, fun a => hst a trivial⟩

theorem reachable_start (c : Call) : Reachable c start := .refl _

/-! ## Calls that come through -/

/-- The calls whose end reaches the client: with OK, the client ends its side by itself, and all
its messages are taken. -/
def Call.EndsOrderly (c : Call) : Prop :=
  c.status = .ok → c.halfCloses = true ∧ c.taken = c.messages.length

theorem Ordered.not_failed {s : State} (h : Ordered c s) (ht : c.taken = c.messages.length) :
    s.copier ≠ .failedSend := by
  intro hf
  obtain ⟨hfi, hlt⟩ := h.failed hf
  have hall := (h.finished hfi).2
  have hle := h.taken
  omega

/-- No reply is too large, and a message is only where that is the call's own answer. -/
def Call.Sized (c : Call) : Prop :=
  (∀ r ∈ c.replies, r.length ≤ maxReceive) ∧
    ∀ m, c.firstLarge = some m → c.replies = [] ∧ c.status = .tooLarge m.length

theorem Call.Sized.messages (h : c.Sized) (hok : c.status = .ok) :
    ∀ m ∈ c.messages, m.length ≤ maxReceive := by
  cases hm : c.firstLarge with
  | none =>
    unfold Call.firstLarge at hm
    intro m hmem
    simpa using List.find?_eq_none.mp hm m hmem
  | some m =>
    have hsta := (h.2 m hm).2
    rw [hok] at hsta
    cases hsta

theorem Ordered.observed {s : State} (h : Ordered c s) (he : c.EndsOrderly) (hsz : c.Sized)
    {st : Status} (hst : s.handler = .returned st) :
    st = c.status ∧ c.replies.take s.relayed = c.replies := by
  rcases h.returned st hst with ⟨hfi, hall, hend⟩ | ⟨m, hm, rfl⟩ | ⟨r, hr, hbig⟩
  · refine ⟨?_, by rw [hall, (h.finished hfi).1, List.take_length]⟩
    rcases hend with hend | ⟨hok, hfail⟩
    · exact hend
    · exact absurd hfail (h.not_failed (he hok).2)
  · obtain ⟨hnil, hsta⟩ := hsz.2 m hm
    exact ⟨hsta.symm, by rw [hnil, List.take_nil]⟩
  · exact absurd (hsz.1 r hr) (Nat.not_le.mpr hbig)

section settled

variable {s : State} (hs : Settled c s) (h : Ordered c s)

include hs h

theorem settled_sent : s.sent = c.messages.length := by
  have hst := hs .clientSend
  have hle := h.sent
  simp only [step, ite_eq_right_iff, reduceCtorEq, imp_false] at hst
  omega

theorem settled_ended (hc : c.halfCloses = true) : s.ended = true := by
  have hst := hs .clientEnd
  by_contra ho
  rw [Bool.not_eq_true] at ho
  simp [step, ho, settled_sent hs h, hc] at hst

theorem settled_not_joining (he : c.EndsOrderly) : s.handler ≠ .joining := by
  intro hj
  obtain ⟨hf, -, hok⟩ := h.joining hj
  obtain ⟨hc, ht⟩ := he hok
  cases hco : s.copier with
  | running =>
    have hfo : s.forwarded = s.sent := by
      have hst := hs .sendMsgEof
      have hst' := hs .recvMsgFails
      have hle := h.forwarded
      simp only [step, hco, hf, hj, true_and, or_true, ite_eq_right_iff, reduceCtorEq,
        imp_false] at hst hst'
      omega
    have hst := hs .closeSend
    simp [step, hco, hfo, settled_ended hs h hc] at hst
  | closedSend =>
    have hst := hs .join
    simp [step, hj, hco] at hst
  | failedSend => exact h.not_failed ht hco
  | failedRecv =>
    obtain ⟨st, hst⟩ := h.refused hco
    exact absurd (hj.symm.trans hst) nofun

theorem settled_forwarded (hc : s.handler = .copying) (ho : s.finished = false) :
    s.forwarded = c.messages.length := by
  cases hco : s.copier with
  | running =>
    have hst := hs .sendMsg
    have hst' := hs .recvMsgFails
    have hle := h.forwarded
    have hse := settled_sent hs h
    simp only [step, hco, hc, true_and, true_or, ite_eq_right_iff, reduceCtorEq,
      imp_false] at hst hst'
    omega
  | closedSend => exact h.closed hco
  | failedSend =>
    have hf := (h.failed hco).1
    rw [ho] at hf
    exact absurd hf (by decide)
  | failedRecv =>
    obtain ⟨st, hst⟩ := h.refused hco
    exact absurd (hc.symm.trans hst) nofun

/-- The upstream comes to its end. -/
theorem settled_finished (hc : s.handler = .copying) : s.finished = true := by
  by_contra ho
  rw [Bool.not_eq_true] at ho
  have hf := settled_forwarded hs h hc ho
  have hr : s.replied = c.replies.length := by
    have hst := hs .upstreamReply
    have hle := h.replied
    simp only [step, ho, true_and, ite_eq_right_iff, reduceCtorEq, imp_false] at hst
    omega
  have ht : s.taken = c.taken := by
    have hst := hs .upstreamTake
    have hle := c.taken_le
    have hta := h.takes
    simp only [step, ho, hf, true_and, ite_eq_right_iff, reduceCtorEq,
      imp_false] at hst
    omega
  have hend : c.waitsEnd = true → s.copier = .closedSend := by
    intro hw
    cases hco : s.copier with
    | running =>
      have hst := hs .closeSend
      have he := settled_ended hs h (c.ends hw).1
      simp [step, hco, hf, settled_sent hs h, he] at hst
    | closedSend => rfl
    | failedSend =>
      have hfi := (h.failed hco).1
      rw [ho] at hfi
      exact absurd hfi (by decide)
    | failedRecv =>
      obtain ⟨st, hst⟩ := h.refused hco
      exact absurd (hc.symm.trans hst) nofun
  have hst := hs .upstreamFinish
  simp only [step, ho, hr, ht, true_and, ite_eq_right_iff, reduceCtorEq,
    imp_false] at hst
  exact hst hend

theorem settled_returned (he : c.EndsOrderly) : ∃ st, s.handler = .returned st := by
  cases hh : s.handler with
  | joining => exact absurd hh (settled_not_joining hs h he)
  | returned st => exact ⟨st, rfl⟩
  | copying =>
    have hf := settled_finished hs h hh
    have hall : s.relayed = s.replied := by
      have hst := hs .relayReply
      have hst' := hs .recvReplyFails
      have hle := h.relayed
      simp only [step, hh, true_and, ite_eq_right_iff, reduceCtorEq, imp_false] at hst hst'
      omega
    have hst := hs .recvStatus
    simp [step, hh, hf, hall] at hst

end settled

/-! ## Calls that do not -/

def stage (sent forwarded taken replied relayed : Nat) (finished : Bool) (handler : Handler) :
    State :=
  ⟨sent, false, forwarded, taken, replied, relayed, finished, .running, handler⟩

theorem sizeAt_le {messages : List Bytes} (h : ∀ m ∈ messages, m.length ≤ maxReceive)
    (i : Nat) : sizeAt messages i ≤ maxReceive := by
  unfold sizeAt
  cases hm : messages[i]? with
  | none => exact Nat.zero_le _
  | some m => exact h m (List.mem_of_getElem? hm)

theorem leads_forwarded {k : Nat} (hk : k ≤ c.messages.length)
    (hp : ∀ j < k, sizeAt c.messages j ≤ maxReceive) :
    Leads (step c) start (stage c.messages.length k 0 0 0 false .copying) := by
  have hse : Leads (step c) start (stage c.messages.length 0 0 0 0 false .copying) :=
    Leads.row (fun i => stage i 0 0 0 0 false .copying) (a := Action.clientSend) fun i hi => by
      simp [step, stage, hi]
  refine hse.trans (Leads.row (fun i => stage c.messages.length i 0 0 0 false .copying)
    (a := Action.sendMsg) fun j hj => ?_)
  simp [step, stage, Nat.lt_of_lt_of_le hj hk, hp j hj]

/-- With OK the handler can come to wait for a goroutine that has forwarded any number of the
messages that the upstream did not wait for. -/
theorem reachable_joining (hok : c.status = .ok) (hsz : c.Sized) (hw : c.waitsEnd = false)
    {k : Nat} (hk : c.taken ≤ k) (hk' : k ≤ c.messages.length) :
    Reachable c (stage c.messages.length k c.taken c.replies.length c.replies.length true
      .joining) := by
  have hf := leads_forwarded hk' fun j _ => sizeAt_le (hsz.messages hok) j
  have hreplies := sizeAt_le hsz.1
  have ht : Leads (step c) (stage c.messages.length k 0 0 0 false .copying)
      (stage c.messages.length k c.taken 0 0 false .copying) :=
    Leads.row (fun i => stage c.messages.length k i 0 0 false .copying) (a := Action.upstreamTake)
      fun i hi => by
        have hlt : i < k := by omega
        simp [step, stage, hi, hlt]
  have hr : Leads (step c) (stage c.messages.length k c.taken 0 0 false .copying)
      (stage c.messages.length k c.taken c.replies.length 0 false .copying) :=
    Leads.row (fun i => stage c.messages.length k c.taken i 0 false .copying)
      (a := Action.upstreamReply) fun i hi => by
        simp [step, stage, hi]
  have hfi : Leads (step c)
      (stage c.messages.length k c.taken c.replies.length 0 false .copying)
      (stage c.messages.length k c.taken c.replies.length 0 true .copying) :=
    .single (a := Action.upstreamFinish) (by simp [step, stage, hw])
  have hre : Leads (step c)
      (stage c.messages.length k c.taken c.replies.length 0 true .copying)
      (stage c.messages.length k c.taken c.replies.length c.replies.length true .copying) :=
    Leads.row (fun i => stage c.messages.length k c.taken c.replies.length i true .copying)
      (a := Action.relayReply) fun i hi => by
        simp [step, stage, hi, hreplies]
  have hst : Leads (step c)
      (stage c.messages.length k c.taken c.replies.length c.replies.length true .copying)
      (stage c.messages.length k c.taken c.replies.length c.replies.length true .joining) :=
    .single (a := Action.recvStatus) (by simp [step, stage, hok])
  exact hf.trans <| ht.trans <| hr.trans <| hfi.trans <|
    hre.trans hst

/-- What the client has observed stays. -/
theorem returned_stays {s t : State} {st : Status} (h : Leads (step c) s t)
    (hs : s.handler = .returned st) : t.handler = .returned st ∧ t.relayed = s.relayed := by
  refine h.preserves (fun t => t.handler = .returned st ∧ t.relayed = s.relayed) ?_ ⟨hs, rfl⟩
  rintro u a v hst ⟨hu, hrel⟩
  cases a with
  | clientSend | clientEnd | sendMsgEof | closeSend | upstreamTake | upstreamReply
    | upstreamFinish =>
    obtain ⟨-, rfl⟩ := of_guard hst
    exact ⟨hu, hrel⟩
  | sendMsg | recvMsgFails | relayReply | recvReplyFails | recvStatus | join =>
    simp [step, hu] at hst

/-- From where the handler is done the client observes what is relayed by then. -/
theorem Call.Transparent.observed (ht : c.Transparent) {s : State} {st : Status}
    (hr : Reachable c s) (hs : s.handler = .returned st) :
    c.replies.take s.relayed = c.replies ∧ st = c.status := by
  obtain ⟨t, hl, hse⟩ := hr.exists_settled
  obtain ⟨hst, hrel⟩ := returned_stays hl hs
  have hsee := ht.2.1 t (hr.trans hl) hse
  rw [State.observed, hst] at hsee
  simp only [Call.direct, Option.some.injEq, Observed.mk.injEq, hrel] at hsee
  exact ⟨hsee.1, hsee.2.2.2⟩

/-- The goroutine can come to the first large message before anything else happens. -/
theorem reachable_cut {m : Bytes} (h : c.firstLarge = some m) :
    ∃ s, Reachable c s ∧ s.relayed = 0 ∧ s.handler = .returned (.tooLarge m.length) := by
  obtain ⟨i, hi, hsize, hbig, hp⟩ := exists_of_firstLarge h
  refine ⟨⟨c.messages.length, false, i, 0, 0, 0, false, .failedRecv,
    .returned (.tooLarge m.length)⟩, (leads_forwarded (Nat.le_of_lt hi) hp).trans ?_, rfl, rfl⟩
  exact .single (a := Action.recvMsgFails) (by simp [step, stage, hi, hsize, hbig])

theorem sized_of_transparent (h : c.Transparent) : c.Sized := by
  refine ⟨fun r hr => ?_, fun m hm => ?_⟩
  · obtain ⟨⟨s, hreach, hse⟩, ho, -⟩ := h
    have hsee := ho s hreach hse
    unfold State.observed Call.direct at hsee
    split at hsee
    · simp only [Option.some.injEq, Observed.mk.injEq] at hsee
      obtain ⟨i, hi, rfl⟩ := List.getElem_of_mem hr
      have hlen := congrArg List.length hsee.1
      rw [List.length_take] at hlen
      rw [← sizeAt_of_lt hi]
      exact hreach.ordered.fit i (by omega)
    · exact absurd hsee nofun
  · obtain ⟨s, hreach, hrel, hst⟩ := reachable_cut hm
    obtain ⟨htake, hsta⟩ := h.observed hreach hst
    rw [hrel, List.take_zero] at htake
    exact ⟨htake.symm, hsta.symm⟩

theorem not_transparent_of_late (hok : c.status = .ok) (hlt : c.taken < c.messages.length) :
    ¬ c.Transparent := by
  intro h
  have hsz := sized_of_transparent h
  have hw : c.waitsEnd = false := by
    by_contra hw
    rw [Bool.not_eq_false] at hw
    have hall := (c.ends hw).2
    omega
  have hj := reachable_joining hok hsz hw (Nat.le_refl _) c.taken_le
  have hfits := sizeAt_le (hsz.messages hok) c.taken
  have hl : Reachable c ⟨c.messages.length, false, c.taken, c.taken, c.replies.length,
      c.replies.length, true, .failedSend, .returned .ofEof⟩ :=
    hj.trans ⟨[.sendMsgEof, .join], by simp [run, step, stage, hlt, hfits]⟩
  have hsta := (h.observed hl rfl).2
  rw [hok] at hsta
  cases hsta

theorem not_transparent_of_waiting (hok : c.status = .ok) (hc : c.halfCloses = false) :
    ¬ c.Transparent := by
  intro h
  have hw : c.waitsEnd = false := by
    by_contra hw
    rw [Bool.not_eq_false] at hw
    rw [(c.ends hw).1] at hc
    exact absurd hc (by decide)
  apply h.2.2 _ (reachable_joining hok (sized_of_transparent h) hw c.taken_le (Nat.le_refl _))
  exact ⟨rfl, ⟨rfl, hc⟩, rfl, rfl, rfl, rfl⟩

theorem metadata_of_transparent (h : c.Transparent) : c.header = [] ∧ c.trailer = [] := by
  obtain ⟨⟨s, hr, hse⟩, ho, -⟩ := h
  have hsee := ho s hr hse
  unfold State.observed Call.direct at hsee
  split at hsee
  · simp only [Option.some.injEq, Observed.mk.injEq] at hsee
    exact ⟨hsee.2.1.symm, hsee.2.2.1.symm⟩
  · exact absurd hsee nofun

/-! ## The law -/

theorem early_taken : 0 ≤ ([] : List Bytes).length := Nat.le_refl _

theorem early_ends (h : false = true) : false = true ∧ 0 = ([] : List Bytes).length := by
  cases h

/-- A stream that the upstream ends while the client goes on listening. -/
def early : Call where
  messages := []
  replies := [bytes "hello"]
  halfCloses := false
  waitsEnd := false
  taken := 0
  header := []
  trailer := []
  status := .ok
  taken_le := early_taken
  ends := early_ends

/-- A call with a trailer. -/
def withTrailer : Call where
  messages := [bytes "ask"]
  replies := [bytes "answer"]
  halfCloses := true
  waitsEnd := true
  taken := 1
  header := []
  trailer := [("cost", "3")]
  status := .ok
  taken_le := Nat.le_refl _
  ends := fun _ => ⟨rfl, rfl⟩

end faultbox.grpc_relay
