-- The TCP proxy without rules: it waits two seconds for the first bytes of the client, then
-- copies both directions and leaves when one of them ends. The law: every byte that one side
-- sends before it closes is delivered to the other. It holds exactly where there is nothing to
-- deliver, or the client speaks at once and the other side is done before the first close.
import Faultbox.PathMatch
import Faultbox.Runs

open gopath runs

namespace faultbox.tcp_relay

/-! ## The proxy -/

/-- One direction: what was sent and not read by the proxy, whether the sender has closed it,
what was delivered, and whether the copying of it has ended. -/
structure Pipe where
  waiting : Bytes
  ended : Bool
  delivered : Bytes
  done : Bool

def Pipe.move (p : Pipe) (n : Nat) : Pipe :=
  { p with waiting := p.waiting.drop n, delivered := p.delivered ++ p.waiting.take n }

/-- One round of `io.Copy`. -/
def Pipe.copy (p : Pipe) (n : Nat) : Option Pipe :=
  if p.done = false ∧ 0 < n ∧ n ≤ p.waiting.length then some (p.move n) else none

/-- `io.Copy` reads the end of its source. -/
def Pipe.finish (p : Pipe) : Option Pipe :=
  if p.done = false ∧ p.waiting = [] ∧ p.ended = true then some { p with done := true } else none

/-- Where `handle` is: in the read of the first chunk, in the wait for the first direction to end,
or behind its deferred closes. -/
inductive Phase where
  | peek
  | splice
  | closed
deriving DecidableEq

structure State where
  phase : Phase
  up : Pipe
  down : Pipe

def peekLen : Nat := 4096

inductive Action where
  | peek (n : Nat)
  | peekEnd
  | expire
  | copyUp (n : Nat)
  | finishUp
  | copyDown (n : Nat)
  | finishDown
  | leave

/-- The steps of `handle` and of its two copying goroutines. -/
def step (s : State) : Action → Option State
  | .peek n =>
    if s.phase = .peek ∧ 0 < n ∧ n ≤ peekLen ∧ n ≤ s.up.waiting.length then
      some { s with phase := .splice, up := s.up.move n }
    else none
  -- an end of file without a byte is no error
  | .peekEnd =>
    if s.phase = .peek ∧ s.up.waiting = [] ∧ s.up.ended = true then
      some { s with phase := .splice }
    else none
  -- the read deadline passes, and handle returns
  | .expire =>
    if s.phase = .peek ∧ s.up.waiting = [] ∧ s.up.ended = false then
      some { s with phase := .closed }
    else none
  | .copyUp n =>
    if s.phase = .splice then (s.up.copy n).map fun p => { s with up := p } else none
  | .finishUp =>
    if s.phase = .splice then s.up.finish.map fun p => { s with up := p } else none
  | .copyDown n =>
    if s.phase = .splice then (s.down.copy n).map fun p => { s with down := p } else none
  | .finishDown =>
    if s.phase = .splice then s.down.finish.map fun p => { s with down := p } else none
  | .leave =>
    if s.phase = .splice ∧ (s.up.done = true ∨ s.down.done = true) then
      some { s with phase := .closed }
    else none

/-- The proxy has nothing left to do. -/
def Settled (s : State) : Prop := ∀ a, step s a = none

/-! ## Conversations -/

/-- What the two sides do before the proxy has settled: the bytes that they send, in any order to
one another, and whether they close their direction after them. -/
structure Round where
  up : Bytes
  down : Bytes
  clientCloses : Bool
  serverCloses : Bool

/-- Who has closed does not send or close again. -/
def Round.Before (r later : Round) : Prop :=
  (r.clientCloses = true → later.up = [] ∧ later.clientCloses = false) ∧
    (r.serverCloses = true → later.down = [] ∧ later.serverCloses = false)

/-- The rounds of a connection. In the first one the client speaks within two seconds, or
it does not. -/
structure Conversation where
  first : Round
  rest : List Round
  proper : (first :: rest).Pairwise Round.Before

def upBytes (rounds : List Round) : Bytes := rounds.flatMap Round.up

def downBytes (rounds : List Round) : Bytes := rounds.flatMap Round.down

def Conversation.rounds (c : Conversation) : List Round := c.first :: c.rest

def Pipe.arrive (p : Pipe) (sent : Bytes) (closes : Bool) : Pipe :=
  { p with waiting := p.waiting ++ sent, ended := p.ended || closes }

def State.arrive (s : State) (r : Round) : State :=
  { s with up := s.up.arrive r.up r.clientCloses, down := s.down.arrive r.down r.serverCloses }

/-- From a state through rounds to a state that has settled, with the steps of the proxy in any
order. -/
inductive Serves : State → List Round → State → Prop
  | settled {s : State} (h : Settled s) : Serves s [] s
  | arrive {s t : State} {r : Round} {rounds : List Round} (h : Settled s)
      (hrest : Serves (s.arrive r) rounds t) : Serves s (r :: rounds) t
  | acts {s u t : State} {rounds : List Round} {a : Action} (h : step s a = some u)
      (hrest : Serves u rounds t) : Serves s rounds t

def start : State := ⟨.peek, ⟨[], false, [], false⟩, ⟨[], false, [], false⟩⟩

def Conversation.Completes (c : Conversation) (t : State) : Prop :=
  Serves (start.arrive c.first) c.rest t

/-- However the proxy goes on, it comes to an end, and at each of its ends all is delivered. -/
def Conversation.Transparent (c : Conversation) : Prop :=
  (∃ t, c.Completes t) ∧ ∀ t, c.Completes t →
    t.up.delivered = upBytes c.rounds ∧ t.down.delivered = downBytes c.rounds

/-- In the first round in which a side closes, and after it, the other side sends nothing; the
client may send `spare` bytes. -/
def ClosesLast (spare : Nat) : List Round → Prop
  | [] => True
  | r :: rounds =>
    if r.clientCloses = true ∨ r.serverCloses = true then
      (r.clientCloses = true → downBytes (r :: rounds) = []) ∧
        (r.serverCloses = true → (upBytes (r :: rounds)).length ≤ spare)
    else ClosesLast 0 rounds

/-- The client sends a byte or closes before the deadline. -/
def Round.Speaks (r : Round) : Prop := r.up ≠ [] ∨ r.clientCloses = true

/-! ## Ends of a run -/

variable {p q : Pipe} {s t : State} {a : Action} {rounds : List Round} {c : Conversation}
  {r : Round}

section measure

def Pipe.weight (p : Pipe) : Nat := p.waiting.length + (!p.done).toNat

def Phase.weight : Phase → Nat
  | .peek => 2
  | .splice => 1
  | .closed => 0

def State.weight (s : State) : Nat := s.phase.weight + s.up.weight + s.down.weight

theorem Pipe.weight_copy {n : Nat} (h : p.copy n = some q) : q.weight < p.weight := by
  obtain ⟨⟨-, hpos, hle⟩, rfl⟩ := of_guard h
  simp only [Pipe.weight, Pipe.move, List.length_drop]
  omega

theorem Pipe.weight_finish (h : p.finish = some q) : q.weight < p.weight := by
  obtain ⟨⟨hd, -, -⟩, rfl⟩ := of_guard h
  simp [Pipe.weight, hd]

theorem weight_step (h : step s a = some t) : t.weight < s.weight := by
  unfold State.weight
  cases a with
  | peek n =>
    obtain ⟨⟨hph, hpos, -, hle⟩, rfl⟩ := of_guard h
    simp only [hph, Phase.weight, Pipe.weight, Pipe.move, List.length_drop]
    omega
  | peekEnd | expire | leave =>
    obtain ⟨hc, rfl⟩ := of_guard h
    simp only [hc.1, Phase.weight]
    omega
  | copyUp n | copyDown n =>
    obtain ⟨-, p, hp, rfl⟩ := of_guard_map h
    have hlt := Pipe.weight_copy hp
    dsimp only
    omega
  | finishUp | finishDown =>
    obtain ⟨-, p, hp, rfl⟩ := of_guard_map h
    have hlt := Pipe.weight_finish hp
    dsimp only
    omega

theorem Serves.of_run {u : State} {as : List Action} (hrun : run step s as = some u)
    (h : Serves u rounds t) : Serves s rounds t := by
  induction as generalizing s with
  | nil =>
    cases hrun
    exact h
  | cons a as ih =>
    obtain ⟨v, hv, hr⟩ := Option.bind_eq_some_iff.mp hrun
    exact .acts hv (ih hr)

theorem exists_settled (s : State) : ∃ as t, run step s as = some t ∧ Settled t := by
  obtain ⟨as, t, -, hrun, hs⟩ := @exists_stuck _ _ step (fun _ => True) State.weight
    (fun _ _ _ _ _ => trivial) (fun _ => True) (fun _ _ _ _ _ h => weight_step h) s trivial
  exact ⟨as, t, hrun, fun a => hs a trivial⟩

theorem exists_serves (s : State) (rounds : List Round) : ∃ t, Serves s rounds t := by
  induction rounds generalizing s with
  | nil =>
    obtain ⟨as, t, hrun, hs⟩ := exists_settled s
    exact ⟨t, .of_run hrun (.settled hs)⟩
  | cons r rounds ih =>
    obtain ⟨as, u, hrun, hs⟩ := exists_settled s
    obtain ⟨t, ht⟩ := ih (u.arrive r)
    exact ⟨t, .of_run hrun (.arrive hs ht)⟩

end measure

/-! ## Nothing is invented -/

def Pipe.sent (p : Pipe) : Bytes := p.delivered ++ p.waiting

theorem Pipe.sent_move (p : Pipe) (n : Nat) : (p.move n).sent = p.sent := by
  simp [Pipe.sent, Pipe.move]

theorem Pipe.sent_copy {n : Nat} (h : p.copy n = some q) : q.sent = p.sent := by
  rw [← (of_guard h).2, Pipe.sent_move]

theorem Pipe.sent_finish (h : p.finish = some q) : q.sent = p.sent := by
  rw [← (of_guard h).2]
  rfl

theorem Pipe.sent_arrive (p : Pipe) (sent : Bytes) (closes : Bool) :
    (p.arrive sent closes).sent = p.sent ++ sent := by
  simp [Pipe.sent, Pipe.arrive]

theorem sent_step (h : step s a = some t) :
    t.up.sent = s.up.sent ∧ t.down.sent = s.down.sent := by
  cases a with
  | peek n =>
    obtain ⟨-, rfl⟩ := of_guard h
    exact ⟨Pipe.sent_move _ _, rfl⟩
  | peekEnd | expire | leave =>
    obtain ⟨-, rfl⟩ := of_guard h
    exact ⟨rfl, rfl⟩
  | copyUp n =>
    obtain ⟨-, p, hp, rfl⟩ := of_guard_map h
    exact ⟨Pipe.sent_copy hp, rfl⟩
  | copyDown n =>
    obtain ⟨-, p, hp, rfl⟩ := of_guard_map h
    exact ⟨rfl, Pipe.sent_copy hp⟩
  | finishUp =>
    obtain ⟨-, p, hp, rfl⟩ := of_guard_map h
    exact ⟨Pipe.sent_finish hp, rfl⟩
  | finishDown =>
    obtain ⟨-, p, hp, rfl⟩ := of_guard_map h
    exact ⟨rfl, Pipe.sent_finish hp⟩

theorem Serves.sent (h : Serves s rounds t) :
    t.up.sent = s.up.sent ++ upBytes rounds ∧ t.down.sent = s.down.sent ++ downBytes rounds := by
  induction h with
  | settled h => simp [upBytes, downBytes]
  | arrive h hr ih =>
    rw [ih.1, ih.2, State.arrive]
    simp [Pipe.sent_arrive, upBytes, downBytes]
  | acts h hr ih =>
    obtain ⟨hup, hd⟩ := sent_step h
    rw [ih.1, ih.2, hup, hd]
    exact ⟨rfl, rfl⟩

theorem Conversation.Completes.sent (h : c.Completes t) :
    t.up.delivered ++ t.up.waiting = upBytes c.rounds ∧
      t.down.delivered ++ t.down.waiting = downBytes c.rounds := by
  have hs := Serves.sent h
  simpa [State.arrive, start, Pipe.arrive, Pipe.sent, Conversation.rounds, upBytes, downBytes]
    using hs

theorem Conversation.Completes.delivered_iff (h : c.Completes t) :
    t.up.delivered = upBytes c.rounds ∧ t.down.delivered = downBytes c.rounds ↔
      t.up.waiting = [] ∧ t.down.waiting = [] := by
  obtain ⟨hup, hd⟩ := h.sent
  rw [← hup, ← hd]
  simp

/-! ## Conversations that close last -/

def Phase.spare : Phase → Nat
  | .peek => 1
  | .splice | .closed => 0

/-- What holds in all states of a conversation in which nothing stands behind a close. -/
structure Tight (s : State) (rounds : List Round) : Prop where
  clientLast : s.up.ended = true → s.down.waiting = []
  serverLast : s.down.ended = true → s.up.waiting.length ≤ s.phase.spare
  upDone : s.up.done = true → s.up.ended = true ∧ s.up.waiting = []
  downDone : s.down.done = true → s.down.ended = true ∧ s.down.waiting = []
  empty : s.phase = .closed → s.up.waiting = [] ∧ s.down.waiting = []
  ends : s.phase = .closed → s.up.ended = true ∨ s.down.ended = true
  speaks : s.phase = .peek → s.up.waiting ≠ [] ∨ s.up.ended = true
  silence : s.up.ended = true ∨ s.down.ended = true → upBytes rounds = [] ∧ downBytes rounds = []
  later : s.up.ended = false → s.down.ended = false → ClosesLast 0 rounds

theorem Tight.acts (h : Tight s rounds) (hs : step s a = some t) : Tight t rounds := by
  cases a with
  | peek n =>
    obtain ⟨⟨hp, hpos, -, hle⟩, rfl⟩ := of_guard hs
    refine ⟨h.clientLast, ?_, ?_, h.downDone, nofun, nofun, nofun, h.silence, h.later⟩
    · intro he
      have hone := h.serverLast he
      rw [hp] at hone
      simp only [Pipe.move, List.length_drop, Phase.spare] at hone ⊢
      omega
    · intro hd
      obtain ⟨he, hnil⟩ := h.upDone hd
      exact ⟨he, by simp [Pipe.move, hnil]⟩
  | peekEnd =>
    obtain ⟨⟨-, hnil, -⟩, rfl⟩ := of_guard hs
    refine ⟨h.clientLast, ?_, h.upDone, h.downDone, nofun, nofun, nofun, h.silence, h.later⟩
    intro _
    simp [hnil]
  | expire =>
    obtain ⟨⟨hp, hnil, ho⟩, rfl⟩ := of_guard hs
    rcases h.speaks hp with hup | he
    · exact absurd hnil hup
    · rw [ho] at he
      exact absurd he (by decide)
  | copyUp n =>
    obtain ⟨hp, p, hc, rfl⟩ := of_guard_map hs
    obtain ⟨⟨hd, hpos, hle⟩, rfl⟩ := of_guard hc
    refine ⟨h.clientLast, ?_, ?_, h.downDone, ?_, ?_, ?_, h.silence, h.later⟩
    · intro he
      have hz := h.serverLast he
      simp only [Pipe.move, List.length_drop]
      omega
    · intro hend
      simp [Pipe.move, hd] at hend
    · simp [hp]
    · simp [hp]
    · simp [hp]
  | finishUp =>
    obtain ⟨hp, p, hc, rfl⟩ := of_guard_map hs
    obtain ⟨⟨-, hnil, he⟩, rfl⟩ := of_guard hc
    exact ⟨h.clientLast, h.serverLast, fun _ => ⟨he, hnil⟩, h.downDone, h.empty, h.ends,
      h.speaks, h.silence, h.later⟩
  | copyDown n =>
    obtain ⟨hp, p, hc, rfl⟩ := of_guard_map hs
    obtain ⟨⟨hd, hpos, hle⟩, rfl⟩ := of_guard hc
    refine ⟨?_, h.serverLast, h.upDone, ?_, ?_, ?_, h.speaks, h.silence, h.later⟩
    · intro he
      simp [Pipe.move, h.clientLast he]
    · intro hend
      simp [Pipe.move, hd] at hend
    · simp [hp]
    · simp [hp]
  | finishDown =>
    obtain ⟨hp, p, hc, rfl⟩ := of_guard_map hs
    obtain ⟨⟨-, hnil, he⟩, rfl⟩ := of_guard hc
    exact ⟨h.clientLast, h.serverLast, h.upDone, fun _ => ⟨he, hnil⟩, h.empty, h.ends,
      h.speaks, h.silence, h.later⟩
  | leave =>
    obtain ⟨⟨hp, hd⟩, rfl⟩ := of_guard hs
    -- one side has closed, so the other has nothing on the way
    have hen : (s.up.waiting = [] ∧ s.down.waiting = []) ∧
        (s.up.ended = true ∨ s.down.ended = true) := by
      rcases hd with hd | hd
      · obtain ⟨he, hnil⟩ := h.upDone hd
        exact ⟨⟨hnil, h.clientLast he⟩, .inl he⟩
      · obtain ⟨he, hnil⟩ := h.downDone hd
        have hz := h.serverLast he
        rw [hp] at hz
        exact ⟨⟨List.eq_nil_of_length_eq_zero (Nat.le_zero.mp hz), hnil⟩, .inr he⟩
    refine ⟨h.clientLast, ?_, h.upDone, h.downDone, fun _ => hen.1, fun _ => hen.2, nofun,
      h.silence, h.later⟩
    intro _
    simp [hen.1.1]

/-- Where the proxy has settled it copies with nothing on the way and nobody done, or it has
left. -/
theorem Tight.settled (h : Tight s rounds) (hs : Settled s) :
    (s.up.waiting = [] ∧ s.down.waiting = []) ∧
      (s.phase = .splice ∧ s.up.ended = false ∧ s.down.ended = false ∨ s.phase = .closed) := by
  cases hp : s.phase with
  | peek =>
    exfalso
    by_cases hnil : s.up.waiting = []
    · have he : s.up.ended = true := (h.speaks hp).resolve_left fun hne => hne hnil
      have hst := hs .peekEnd
      simp [step, hp, hnil, he] at hst
    · have hpos : 1 ≤ s.up.waiting.length := List.length_pos_iff.mpr hnil
      have hst := hs (.peek 1)
      simp [step, hp, hpos, peekLen] at hst
  | closed => exact ⟨h.empty hp, .inr rfl⟩
  | splice =>
    have hu : s.up.done = false := by
      by_contra hd
      have hst := hs .leave
      simp [step, hp, hd] at hst
    have hdo : s.down.done = false := by
      by_contra hd
      have hst := hs .leave
      simp [step, hp, hd] at hst
    have hup : s.up.waiting = [] := by
      by_contra hne
      have hpos : 1 ≤ s.up.waiting.length := List.length_pos_iff.mpr hne
      have hst := hs (.copyUp 1)
      simp [step, hp, Pipe.copy, hu, hpos] at hst
    have hdow : s.down.waiting = [] := by
      by_contra hne
      have hpos : 1 ≤ s.down.waiting.length := List.length_pos_iff.mpr hne
      have hst := hs (.copyDown 1)
      simp [step, hp, Pipe.copy, hdo, hpos] at hst
    refine ⟨⟨hup, hdow⟩, .inl ⟨rfl, ?_, ?_⟩⟩
    · by_contra he
      have hst := hs .finishUp
      simp [step, hp, Pipe.finish, hu, hup, he] at hst
    · by_contra he
      have hst := hs .finishDown
      simp [step, hp, Pipe.finish, hdo, hdow, he] at hst

theorem bytes_append (r : Round) (rounds : List Round) :
    upBytes (r :: rounds) = r.up ++ upBytes rounds ∧
      downBytes (r :: rounds) = r.down ++ downBytes rounds := ⟨rfl, rfl⟩

theorem upBytes_after (h : ∀ x ∈ rounds, r.Before x) (hc : r.clientCloses = true) :
    upBytes rounds = [] := by
  unfold upBytes
  rw [List.flatMap_eq_nil_iff]
  intro x hx
  exact ((h x hx).1 hc).1

theorem downBytes_after (h : ∀ x ∈ rounds, r.Before x) (hc : r.serverCloses = true) :
    downBytes rounds = [] := by
  unfold downBytes
  rw [List.flatMap_eq_nil_iff]
  intro x hx
  exact ((h x hx).2 hc).1

/-- No direction is closed, and nothing is on the way. -/
def State.Fresh (s : State) : Prop :=
  s.up.waiting = [] ∧ s.down.waiting = [] ∧ s.up.ended = false ∧ s.down.ended = false

theorem silence_of_closes {spare : Nat} (hl : ClosesLast spare (r :: rounds))
    (hb : ∀ x ∈ rounds, r.Before x)
    (hs : (upBytes (r :: rounds)).length ≤ spare → upBytes rounds = [])
    (hcl : r.clientCloses = true ∨ r.serverCloses = true) :
    upBytes rounds = [] ∧ downBytes rounds = [] := by
  rw [ClosesLast, if_pos hcl] at hl
  obtain ⟨hcli, hse⟩ := hl
  constructor
  · by_cases hc : r.clientCloses = true
    · exact upBytes_after hb hc
    · exact hs (hse (hcl.resolve_left hc))
  · by_cases hc : r.serverCloses = true
    · exact downBytes_after hb hc
    · have hnil := hcli (hcl.resolve_right hc)
      rw [(bytes_append r rounds).2, List.append_eq_nil_iff] at hnil
      exact hnil.2

/-- A round that arrives at a fresh state. -/
theorem tight_arrive (hs : s.Fresh) (ho : s.phase ≠ .closed) (hup : s.up.done = false)
    (hd : s.down.done = false) (hsp : s.phase = .peek → r.Speaks) (hb : ∀ x ∈ rounds, r.Before x)
    (hl : ClosesLast s.phase.spare (r :: rounds)) : Tight (s.arrive r) rounds := by
  obtain ⟨hu, hdo, hupO, hdow⟩ := hs
  have hspa : (upBytes (r :: rounds)).length ≤ s.phase.spare → upBytes rounds = [] := by
    intro hle
    rw [(bytes_append r rounds).1, List.length_append] at hle
    cases hp : s.phase with
    | peek =>
      rcases hsp hp with hne | hc
      · have hpos := List.length_pos_iff.mpr hne
        simp only [hp, Phase.spare] at hle
        exact List.eq_nil_of_length_eq_zero (by omega)
      · exact upBytes_after hb hc
    | splice | closed =>
      simp only [hp, Phase.spare] at hle
      exact List.eq_nil_of_length_eq_zero (by omega)
  refine ⟨?_, ?_, ?_, ?_, ?_, ?_, ?_, ?_, ?_⟩
  · intro hc
    simp only [State.arrive, Pipe.arrive, hupO, Bool.false_or] at hc
    rw [ClosesLast, if_pos (.inl hc)] at hl
    have hnil := hl.1 hc
    rw [(bytes_append r rounds).2, List.append_eq_nil_iff] at hnil
    simp [State.arrive, Pipe.arrive, hdo, hnil.1]
  · intro hc
    simp only [State.arrive, Pipe.arrive, hdow, Bool.false_or] at hc
    rw [ClosesLast, if_pos (.inr hc)] at hl
    have hle := hl.2 hc
    rw [(bytes_append r rounds).1, List.length_append] at hle
    simp only [State.arrive, Pipe.arrive, hu, List.nil_append]
    omega
  · simp [State.arrive, Pipe.arrive, hup]
  · simp [State.arrive, Pipe.arrive, hd]
  · exact fun hcl => absurd hcl ho
  · exact fun hcl => absurd hcl ho
  · intro hpe
    simpa [State.arrive, Pipe.arrive, hu, hupO, Round.Speaks] using hsp hpe
  · intro hc
    simp only [State.arrive, Pipe.arrive, hupO, hdow, Bool.false_or] at hc
    exact silence_of_closes hl hb hspa hc
  · intro hc hs
    simp only [State.arrive, Pipe.arrive, hupO, hdow, Bool.false_or] at hc hs
    rw [ClosesLast, if_neg (by simp [hc, hs])] at hl
    exact hl

theorem Tight.arrive_closed (h : Tight s (r :: rounds)) (hc : s.phase = .closed) :
    Tight (s.arrive r) rounds := by
  obtain ⟨hup, hd⟩ := h.empty hc
  have he := h.ends hc
  obtain ⟨hu, hdo⟩ := h.silence he
  rw [(bytes_append r rounds).1, List.append_eq_nil_iff] at hu
  rw [(bytes_append r rounds).2, List.append_eq_nil_iff] at hdo
  have hem : (s.arrive r).up.waiting = [] ∧ (s.arrive r).down.waiting = [] := by
    simp [State.arrive, Pipe.arrive, hup, hd, hu.1, hdo.1]
  have hen : (s.arrive r).up.ended = true ∨ (s.arrive r).down.ended = true := by
    rcases he with hend | hend <;> simp [State.arrive, Pipe.arrive, hend]
  refine ⟨fun _ => hem.2, ?_, ?_, ?_, fun _ => hem, fun _ => hen, ?_,
    fun _ => ⟨hu.2, hdo.2⟩, ?_⟩
  · simp [hem.1]
  · intro hdon
    obtain ⟨hend, -⟩ := h.upDone hdon
    exact ⟨by simp [State.arrive, Pipe.arrive, hend], hem.1⟩
  · intro hdon
    obtain ⟨hend, -⟩ := h.downDone hdon
    exact ⟨by simp [State.arrive, Pipe.arrive, hend], hem.2⟩
  · intro hp
    rw [State.arrive, hc] at hp
    exact absurd hp (by decide)
  · intro hupO hdow
    rcases hen with hend | hend
    · exact absurd (hupO ▸ hend) (by decide)
    · exact absurd (hdow ▸ hend) (by decide)

theorem Tight.up_open (h : Tight s rounds) (ho : s.up.ended = false) : s.up.done = false := by
  by_contra hd
  rw [Bool.not_eq_false] at hd
  exact absurd ((h.upDone hd).1.symm.trans ho) (by decide)

theorem Tight.down_open (h : Tight s rounds) (ho : s.down.ended = false) : s.down.done = false := by
  by_contra hd
  rw [Bool.not_eq_false] at hd
  exact absurd ((h.downDone hd).1.symm.trans ho) (by decide)

theorem Tight.serves (hse : Serves s rounds t) (h : Tight s rounds)
    (hp : rounds.Pairwise Round.Before) :
    t.up.waiting = [] ∧ t.down.waiting = [] := by
  induction hse with
  | settled hs => exact (h.settled hs).1
  | acts hst hr ih => exact ih (h.acts hst) hp
  | @arrive s t r rounds hs hr ih =>
    rw [List.pairwise_cons] at hp
    apply ih _ hp.2
    obtain ⟨⟨hup, hd⟩, ⟨hph, hu, hdo⟩ | hc⟩ := h.settled hs
    · have hl := h.later hu hdo
      refine tight_arrive ⟨hup, hd, hu, hdo⟩ (by simp [hph]) (h.up_open hu)
        (h.down_open hdo) (by simp [hph]) hp.1 ?_
      rw [hph]
      exact hl
    · exact h.arrive_closed hc

/-! ## Runs that lose bytes -/

theorem serves_closed (hs : s.phase = .closed) (rounds : List Round) :
    ∃ t, Serves s rounds t ∧ t.up.waiting = s.up.waiting ++ upBytes rounds ∧
      t.down.waiting = s.down.waiting ++ downBytes rounds := by
  have hse : ∀ u : State, u.phase = .closed → Settled u := by
    intro u hu a
    cases a <;> simp [step, hu]
  induction rounds generalizing s with
  | nil => exact ⟨s, .settled (hse s hs), by simp [upBytes], by simp [downBytes]⟩
  | cons r rounds ih =>
    have ha : (s.arrive r).phase = .closed := hs
    obtain ⟨t, hser, hup, hd⟩ := ih ha
    refine ⟨t, .arrive (hse s hs) hser, ?_, ?_⟩
    · rw [hup, (bytes_append r rounds).1]
      simp [State.arrive, Pipe.arrive]
    · rw [hd, (bytes_append r rounds).2]
      simp [State.arrive, Pipe.arrive]

theorem leave_up (hp : s.phase = .splice) (he : s.up.ended = true) (hd : s.up.done = false) :
    ∃ as t, run step s as = some t ∧ t.phase = .closed ∧ t.down = s.down ∧
      t.up.waiting = [] := by
  cases hup : s.up.waiting with
  | nil =>
    refine ⟨[.finishUp, .leave], { s with phase := .closed, up := { s.up with done := true } },
      ?_, rfl, rfl, hup⟩
    simp [run, step, hp, Pipe.finish, hd, hup, he]
  | cons b rest =>
    have hpos : 0 < s.up.waiting.length := by simp [hup]
    refine ⟨[.copyUp s.up.waiting.length, .finishUp, .leave],
      { s with phase := .closed, up := { s.up.move s.up.waiting.length with done := true } },
      ?_, rfl, rfl, ?_⟩
    · simp [run, step, hp, Pipe.copy, Pipe.finish, Pipe.move, hd, hpos, he]
    · simp [Pipe.move]

theorem leave_down (hp : s.phase = .splice) (he : s.down.ended = true) (hd : s.down.done = false) :
    ∃ as t, run step s as = some t ∧ t.phase = .closed ∧ t.up = s.up ∧ t.down.waiting = [] := by
  cases hdo : s.down.waiting with
  | nil =>
    refine ⟨[.finishDown, .leave],
      { s with phase := .closed, down := { s.down with done := true } }, ?_, rfl, rfl, hdo⟩
    simp [run, step, hp, Pipe.finish, hd, hdo, he]
  | cons b rest =>
    have hpos : 0 < s.down.waiting.length := by simp [hdo]
    refine ⟨[.copyDown s.down.waiting.length, .finishDown, .leave],
      { s with phase := .closed, down := { s.down.move s.down.waiting.length with done := true } },
      ?_, rfl, rfl, ?_⟩
    · simp [run, step, hp, Pipe.copy, Pipe.finish, Pipe.move, hd, hpos, he]
    · simp [Pipe.move]

theorem peek_one (hp : s.phase = .peek) (hs : s.up.waiting ≠ [] ∨ s.up.ended = true) :
    ∃ a t, step s a = some t ∧ t.phase = .splice ∧ t.down = s.down ∧ t.up.ended = s.up.ended ∧
      t.up.done = s.up.done ∧ t.up.waiting = s.up.waiting.tail := by
  by_cases hnil : s.up.waiting = []
  · have he : s.up.ended = true := hs.resolve_left fun hne => hne hnil
    refine ⟨.peekEnd, { s with phase := .splice }, ?_, rfl, rfl, rfl, rfl, by simp [hnil]⟩
    simp [step, hp, hnil, he]
  · have hpos : 1 ≤ s.up.waiting.length := List.length_pos_iff.mpr hnil
    refine ⟨.peek 1, { s with phase := .splice, up := s.up.move 1 }, ?_, rfl, rfl, rfl, rfl, ?_⟩
    · simp [step, hp, hpos, peekLen]
    · simp [Pipe.move]

/-- A run to an end with bytes that wait. -/
def Loses (s : State) (rounds : List Round) : Prop :=
  ∃ t, Serves s rounds t ∧ ¬ (t.up.waiting = [] ∧ t.down.waiting = [])

theorem Loses.of_run {as : List Action} (hrun : run step s as = some t) (h : Loses t rounds) :
    Loses s rounds := by
  obtain ⟨u, hs, hw⟩ := h
  exact ⟨u, .of_run hrun hs, hw⟩

theorem loses_closed (hs : s.phase = .closed)
    (h : s.up.waiting ++ upBytes rounds ≠ [] ∨ s.down.waiting ++ downBytes rounds ≠ []) :
    Loses s rounds := by
  obtain ⟨t, hse, hup, hd⟩ := serves_closed hs rounds
  refine ⟨t, hse, ?_⟩
  rw [hup, hd]
  rintro ⟨hnil, hnil'⟩
  rcases h with hne | hne
  · exact hne hnil
  · exact hne hnil'

theorem loses_splice (hp : s.phase = .splice) (hup : s.up.done = false) (hd : s.down.done = false)
    (h : s.up.ended = true ∧ s.down.waiting ++ downBytes rounds ≠ [] ∨ s.down.ended = true ∧ s.up.waiting ++ upBytes rounds ≠ [])
    : Loses s rounds := by
  rcases h with ⟨he, hne⟩ | ⟨he, hne⟩
  · obtain ⟨as, t, hrun, hc, hs, -⟩ := leave_up hp he hup
    exact Loses.of_run hrun (loses_closed hc (.inr (by rwa [hs])))
  · obtain ⟨as, t, hrun, hc, hs, -⟩ := leave_down hp he hd
    exact Loses.of_run hrun (loses_closed hc (.inl (by rwa [hs])))

theorem ended_step (h : step s a = some t) :
    t.up.ended = s.up.ended ∧ t.down.ended = s.down.ended := by
  cases a with
  | peek | peekEnd | expire | leave =>
    obtain ⟨-, rfl⟩ := of_guard h
    exact ⟨rfl, rfl⟩
  | copyUp | copyDown | finishUp | finishDown =>
    obtain ⟨-, p, hc, rfl⟩ := of_guard_map h
    obtain ⟨-, rfl⟩ := of_guard hc
    exact ⟨rfl, rfl⟩

/-- Both directions are copied, and nothing is on the way. -/
structure Copying (s : State) : Prop where
  settled : Settled s
  phase : s.phase = .splice
  fresh : s.Fresh
  up : s.up.done = false
  down : s.down.done = false

theorem exists_copying (hs : s.Fresh) (ho : s.phase ≠ .closed) (hup : s.up.done = false)
    (hd : s.down.done = false) (hsp : s.phase = .peek → r.Speaks)
    (hr : ¬ (r.clientCloses = true ∨ r.serverCloses = true)) :
    ∃ as t, run step (s.arrive r) as = some t ∧ Copying t := by
  have hti : Tight (s.arrive r) [] := by
    refine tight_arrive hs ho hup hd hsp (fun _ hx => nomatch hx) ?_
    rw [ClosesLast, if_neg hr]
    trivial
  have he : (s.arrive r).up.ended = false ∧ (s.arrive r).down.ended = false := by
    rw [not_or, Bool.not_eq_true, Bool.not_eq_true] at hr
    simp [State.arrive, Pipe.arrive, hs.2.2.1, hs.2.2.2, hr]
  obtain ⟨as, t, hrun, hse⟩ := exists_settled (s.arrive r)
  obtain ⟨ht, hupO, hdo⟩ : Tight t [] ∧ t.up.ended = false ∧ t.down.ended = false := by
    refine run_preserves (fun u => Tight u [] ∧ u.up.ended = false ∧ u.down.ended = false) ?_ hrun
      ⟨hti, he⟩
    rintro u a v hst ⟨hu, hupO, hdo⟩
    obtain ⟨hupS, hdow⟩ := ended_step hst
    exact ⟨hu.acts hst, hupS.trans hupO, hdow.trans hdo⟩
  refine ⟨as, t, hrun, hse, ?_, ?_, ht.up_open hupO, ht.down_open hdo⟩
  · obtain ⟨-, ⟨hp, -⟩ | hc⟩ := ht.settled hse
    · exact hp
    · rcases ht.ends hc with hend | hend
      · exact absurd (hupO ▸ hend) (by decide)
      · exact absurd (hdo ▸ hend) (by decide)
  · obtain ⟨⟨hupN, hdownN⟩, -⟩ := ht.settled hse
    exact ⟨hupN, hdownN, hupO, hdo⟩

theorem Copying.loses (hs : Copying s) (h : ¬ ClosesLast 0 rounds) : Loses s rounds := by
  induction rounds generalizing s with
  | nil => exact absurd trivial h
  | cons r rounds ih =>
    obtain ⟨hse, hp, hf, hup, hd⟩ := hs
    have ha : Loses (s.arrive r) rounds → Loses s (r :: rounds) := by
      rintro ⟨t, hser, hw⟩
      exact ⟨t, .arrive hse hser, hw⟩
    apply ha
    rw [ClosesLast] at h
    split at h
    · obtain ⟨hu, hdo, hupO, hdow⟩ := hf
      refine loses_splice (s := s.arrive r) hp hup hd ?_
      simp only [State.arrive, Pipe.arrive, hu, hdo, hupO, hdow, Bool.false_or,
        List.nil_append]
      rw [(bytes_append r rounds).1, (bytes_append r rounds).2, not_and_or] at h
      push Not at h
      rcases h with ⟨hc, hne⟩ | ⟨hc, hlt⟩
      · exact .inl ⟨hc, hne⟩
      · exact .inr ⟨hc, List.length_pos_iff.mp hlt⟩
    · rename_i hr
      obtain ⟨as, t, hrun, ht⟩ := exists_copying hf (by simp [hp]) hup hd
        (by simp [hp]) hr
      exact Loses.of_run hrun (ih ht h)

theorem start_fresh : start.Fresh := ⟨rfl, rfl, rfl, rfl⟩

theorem loses_silent (hr : ¬ r.Speaks)
    (h : ¬ (upBytes (r :: rounds) = [] ∧ downBytes (r :: rounds) = [])) :
    Loses (start.arrive r) rounds := by
  unfold Round.Speaks at hr
  push Not at hr
  obtain ⟨hup, ho⟩ := hr
  have hrun : run step (start.arrive r) [.expire] =
      some { start.arrive r with phase := .closed } := by
    simp [run, step, State.arrive, start, Pipe.arrive, hup, ho]
  apply Loses.of_run hrun
  apply loses_closed rfl
  rw [not_and_or] at h
  exact h

theorem loses_first (hr : r.Speaks) (h : ¬ ClosesLast 1 (r :: rounds)) :
    Loses (start.arrive r) rounds := by
  rw [ClosesLast] at h
  split at h
  · have hp : (start.arrive r).up.waiting ≠ [] ∨ (start.arrive r).up.ended = true := hr
    obtain ⟨a, t, hs, hph, hd, he, hdo, hup⟩ := peek_one rfl hp
    have hrun : run step (start.arrive r) [a] = some t := by
      simp [run, hs]
    apply Loses.of_run hrun
    apply loses_splice hph hdo (by rw [hd]; rfl)
    rw [he, hd, hup]
    rw [(bytes_append r rounds).1, (bytes_append r rounds).2, not_and_or] at h
    push Not at h
    rcases h with ⟨hc, hne⟩ | ⟨hc, hlt⟩
    · exact .inl ⟨hc, hne⟩
    · refine .inr ⟨hc, ?_⟩
      -- the peek takes one byte, and there are two
      have hlen : (start.arrive r).up.waiting = r.up := rfl
      rw [List.length_append] at hlt
      rw [hlen, ← List.length_pos_iff, List.length_append, List.length_tail]
      omega
  · rename_i hcl
    obtain ⟨as, t, hrun, ht⟩ := exists_copying start_fresh (by decide) rfl rfl (fun _ => hr) hcl
    exact Loses.of_run hrun (ht.loses h)

/-! ## The law -/

theorem Loses.not_transparent (h : Loses (start.arrive c.first) c.rest) :
    ¬ c.Transparent := by
  obtain ⟨t, hs, hw⟩ := h
  have ht : c.Completes t := hs
  exact fun hc => hw (ht.delivered_iff.mp (hc.2 t ht))

/-- Every byte is delivered exactly when there is none, or when the client speaks at once and
nothing stands behind the first close. -/
theorem conversation_transparent_iff (c : Conversation) :
    c.Transparent ↔ upBytes c.rounds = [] ∧ downBytes c.rounds = [] ∨
      c.first.Speaks ∧ ClosesLast 1 c.rounds := by
  have hco := c.proper
  rw [List.pairwise_cons] at hco
  constructor
  · intro h
    by_contra hnot
    rw [not_or] at hnot
    obtain ⟨hb, hl⟩ := hnot
    have hlo : Loses (start.arrive c.first) c.rest := by
      by_cases hs : c.first.Speaks
      · exact loses_first hs fun hc => hl ⟨hs, hc⟩
      · exact loses_silent hs hb
    exact hlo.not_transparent h
  · intro h
    refine ⟨exists_serves _ _, fun t ht => ?_⟩
    rw [ht.delivered_iff]
    rcases h with ⟨hup, hd⟩ | ⟨hs, hl⟩
    · obtain ⟨hse, hsen⟩ := ht.sent
      rw [hup, List.append_eq_nil_iff] at hse
      rw [hd, List.append_eq_nil_iff] at hsen
      exact ⟨hse.2, hsen.2⟩
    · have hti : Tight (start.arrive c.first) c.rest :=
        tight_arrive start_fresh (by decide) rfl rfl (fun _ => hs) hco.1 hl
      exact Tight.serves ht hti hco.2

def greeting : Conversation where
  first := ⟨[], bytes "220 ready", false, false⟩
  rest := []
  proper := List.pairwise_singleton _ _

/-- The client sends a request and closes its direction, and then the server answers. -/
def request : Conversation where
  first := ⟨bytes "get", [], true, false⟩
  rest := [⟨[], bytes "answer", false, true⟩]
  proper := by
    simp [Round.Before]

/-- Neither the greeting nor the answer arrives. -/
theorem greeting_and_answer_lost : ¬ greeting.Transparent ∧ ¬ request.Transparent := by
  refine ⟨(loses_silent ?_ ?_).not_transparent, (loses_first ?_ ?_).not_transparent⟩
  · simp [greeting, Round.Speaks]
  · exact fun h => absurd h.2 (by decide)
  · exact .inr rfl
  · intro h
    have hnil : downBytes request.rounds = [] := by
      rw [request, ClosesLast, if_pos (.inl rfl)] at h
      exact h.1 rfl
    exact absurd hnil (by decide)

end faultbox.tcp_relay
