-- The queue of held system calls: calls are numbered as they arrive, and each waits for one
-- decision in a channel of one slot. The law: whatever is called on the queue, no call of it
-- blocks on a channel, and each held call is either pending and unanswered or answered
-- once. The oldest is answered first, and a closed queue holds nothing back.
import Faultbox.GoSlice
import Faultbox.Runs

open goslice

namespace faultbox.hold_queue

/-! ## The queue -/

structure HoldDecision where
  allow : Bool
  errno : Int
deriving DecidableEq

def allowed : HoldDecision := ⟨true, 0⟩

/-- `HoldQueue`, with the channels of the calls that were enqueued so far. `slot` is what lies
in the channel of a call, `sent` is every send, in order. -/
structure State where
  pending : Slice Nat
  closed : Bool
  arrived : Nat
  slot : Nat → Option HoldDecision
  sent : List (Nat × HoldDecision)

def newHoldQueue : State := ⟨.empty, false, 0, fun _ => none, []⟩

def State.decisions (s : State) (h : Nat) : List HoldDecision :=
  (s.sent.filter fun e => e.1 = h).map (·.2)

/-- `h.ReleaseCh <- d`. It blocks while the slot is taken. -/
def State.send (s : State) (h : Nat) (d : HoldDecision) : Option State :=
  match s.slot h with
  | some _ => none
  | none =>
    some { s with slot := Function.update s.slot h (some d), sent := s.sent ++ [(h, d)] }

/-- The loops of `ReleaseAll` and `Close`. -/
def State.sendAll (s : State) (d : HoldDecision) : List Nat → Option State
  | [] => some s
  | h :: rest => (s.send h d).bind fun t => t.sendAll d rest

/-- `Enqueue` of the next call. -/
def State.enqueue (s : State) (room : List Nat) : Option State :=
  let counted : State := { s with arrived := s.arrived + 1 }
  if s.closed then counted.send s.arrived allowed
  else some { counted with pending := s.pending.push s.arrived room }

def State.releaseOne (s : State) (d : HoldDecision) : Option (State × Bool) :=
  match s.pending.view with
  | [] => some (s, false)
  | h :: _ =>
    let popped : State := { s with pending := s.pending.next }
    (popped.send h d).map fun t => (t, true)

def State.releaseAll (s : State) (d : HoldDecision) : Option State :=
  (s.sendAll d s.pending.view).map fun t => { t with pending := .empty }

def State.releaseByIndex (s : State) (i : Int) (d : HoldDecision) : Option (State × Bool) :=
  if i < 0 then some (s, false)
  else
    match s.pending.view[i.toNat]? with
    | none => some (s, false)
    | some h =>
      let cut : State := { s with pending := s.pending.removeAt i.toNat }
      (cut.send h d).map fun t => (t, true)

def State.close (s : State) : Option State :=
  if s.closed then some s
  else
    let shut : State := { s with closed := true }
    (shut.sendAll allowed s.pending.view).map fun t => { t with pending := .empty }

def State.receive (s : State) (h : Nat) : State :=
  { s with slot := Function.update s.slot h none }

inductive Op where
  | enqueue (room : List Nat)
  | releaseOne (d : HoldDecision)
  | releaseAll (d : HoldDecision)
  | releaseByIndex (i : Int) (d : HoldDecision)
  | close
  | receive (h : Nat)

/-- One call, under the lock of the queue; `none` is a call that blocks. -/
def step (s : State) : Op → Option State
  | .enqueue room => s.enqueue room
  | .releaseOne d => (s.releaseOne d).map (·.1)
  | .releaseAll d => s.releaseAll d
  | .releaseByIndex i d => (s.releaseByIndex i d).map (·.1)
  | .close => s.close
  | .receive h => some (s.receive h)

/-! ## Sending -/

def State.answer (s : State) (hs : List Nat) (d : HoldDecision) : State :=
  { s with
    slot := fun h => if h ∈ hs then some d else s.slot h
    sent := s.sent ++ hs.map fun h => (h, d) }

section send

variable {s : State} {d : HoldDecision}
variable {h : Nat} {hs : List Nat}

theorem send_eq (hf : s.slot h = none) : s.send h d = some (s.answer [h] d) := by
  unfold State.send State.answer
  rw [hf]
  have hsl : Function.update s.slot h (some d) =
      fun x => if x ∈ [h] then some d else s.slot x := by
    funext x
    simp only [Function.update_apply, List.mem_singleton]
  simp [hsl]

theorem answer_cons (h : Nat) (rest : List Nat) :
    (s.answer [h] d).answer rest d = s.answer (h :: rest) d := by
  have hsl : (fun x => if x ∈ rest then some d else if x ∈ [h] then some d else s.slot x) =
      fun x => if x ∈ h :: rest then some d else s.slot x := by
    funext x
    by_cases hr : x ∈ rest
    · simp [hr]
    · simp [hr]
  unfold State.answer
  rw [hsl, List.append_assoc]
  rfl

theorem sendAll_eq (hn : hs.Nodup) (hf : ∀ h ∈ hs, s.slot h = none) :
    s.sendAll d hs = some (s.answer hs d) := by
  induction hs generalizing s with
  | nil => simp [State.sendAll, State.answer]
  | cons h rest ih =>
    obtain ⟨hnot, hn⟩ := List.nodup_cons.mp hn
    rw [State.sendAll, send_eq (hf h List.mem_cons_self), Option.bind_some, ih hn,
      answer_cons]
    intro x hx
    have hne : x ≠ h := by
      rintro rfl
      exact hnot hx
    show (if x ∈ [h] then some d else s.slot x) = none
    rw [if_neg (by simpa using hne)]
    exact hf x (List.mem_cons_of_mem _ hx)

theorem decisions_answer_of_mem (hn : hs.Nodup) (hmem : h ∈ hs) :
    (s.answer hs d).decisions h = s.decisions h ++ [d] := by
  unfold State.decisions State.answer
  rw [List.filter_append, List.map_append, List.filter_map]
  have hone : hs.filter ((fun e : Nat × HoldDecision => decide (e.1 = h)) ∘ fun x => (x, d)) =
      [h] := by
    rw [show ((fun e : Nat × HoldDecision => decide (e.1 = h)) ∘ fun x => (x, d)) =
      fun x => x == h from rfl, List.filter_beq, List.count_eq_one_of_mem hn hmem]
    rfl
  rw [hone]
  rfl

theorem decisions_answer_of_not_mem (hmem : h ∉ hs) :
    (s.answer hs d).decisions h = s.decisions h := by
  unfold State.decisions State.answer
  rw [List.filter_append, List.map_append]
  have hn : (hs.map fun x => (x, d)).filter (fun e => decide (e.1 = h)) = [] := by
    rw [List.filter_eq_nil_iff]
    intro e he
    obtain ⟨x, hx, rfl⟩ := List.mem_map.mp he
    simp only [decide_eq_true_eq]
    rintro rfl
    exact hmem hx
  rw [hn, List.map_nil, List.append_nil]

end send

/-! ## What every call keeps -/

/-- Calls are pending in the order of their arrival and unanswered, the others were answered
once, and a closed queue has no pending call. -/
structure Sound (s : State) : Prop where
  ordered : s.pending.view.Pairwise (· < ·)
  known : ∀ h ∈ s.pending.view, h < s.arrived
  unanswered : ∀ h ∈ s.pending.view, s.slot h = none ∧ s.decisions h = []
  answered : ∀ h < s.arrived, h ∉ s.pending.view → ∃ d, s.decisions h = [d]
  fresh : ∀ h, s.arrived ≤ h → s.slot h = none ∧ s.decisions h = []
  shut : s.closed = true → s.pending.view = []

theorem newHoldQueue_sound : Sound newHoldQueue where
  ordered := .nil
  known := fun _ hmem => absurd hmem List.not_mem_nil
  unanswered := fun _ hmem => absurd hmem List.not_mem_nil
  answered := fun _ hlt => absurd hlt (Nat.not_lt_zero _)
  fresh := fun _ _ => ⟨rfl, rfl⟩
  shut := fun _ => rfl

section sound

variable {s : State}
variable {h : Nat}

theorem Sound.nodup (hs : Sound s) : s.pending.view.Nodup :=
  hs.ordered.imp fun h => Nat.ne_of_lt h

theorem Sound.decisions_of_sent (hs : Sound s) {d : HoldDecision} (hse : (h, d) ∈ s.sent) :
    s.decisions h = [d] := by
  have hmem : d ∈ s.decisions h := by
    unfold State.decisions
    rw [List.mem_map]
    exact ⟨(h, d), List.mem_filter.mpr ⟨hse, by simp⟩, rfl⟩
  by_cases hlt : h < s.arrived
  · by_cases hp : h ∈ s.pending.view
    · rw [(hs.unanswered h hp).2] at hmem
      cases hmem
    · obtain ⟨d', hd'⟩ := hs.answered h hlt hp
      rw [hd'] at hmem ⊢
      rw [List.mem_singleton.mp hmem]
  · rw [(hs.fresh h (Nat.not_lt.mp hlt)).2] at hmem
    cases hmem

/-- Pending calls are answered and leave the queue, the rest stays in its order. -/
theorem Sound.answer (hs : Sound s) {out : List Nat} {left : Slice Nat} {closed : Bool}
    (d : HoldDecision) (hn : out.Nodup) (hout : ∀ h ∈ out, h ∈ s.pending.view)
    (ho : left.view.Sublist s.pending.view)
    (hl : ∀ h, h ∈ left.view ↔ h ∈ s.pending.view ∧ h ∉ out)
    (hc : closed = true → left.view = []) :
    Sound { s.answer out d with pending := left, closed := closed } where
  ordered := hs.ordered.sublist ho
  known := fun h hmem => hs.known h (ho.subset hmem)
  unanswered := by
    intro h hmem
    obtain ⟨hin, hnot⟩ := (hl h).mp hmem
    obtain ⟨hsl, hno⟩ := hs.unanswered h hin
    refine ⟨?_, (decisions_answer_of_not_mem hnot).trans hno⟩
    show (if h ∈ out then some d else s.slot h) = none
    rw [if_neg hnot, hsl]
  answered := by
    intro h hlt hnot
    by_cases hmem : h ∈ out
    · have hno := (hs.unanswered h (hout h hmem)).2
      refine ⟨d, (decisions_answer_of_mem hn hmem).trans ?_⟩
      rw [hno, List.nil_append]
    · have hwas : h ∉ s.pending.view := fun hin => hnot ((hl h).mpr ⟨hin, hmem⟩)
      obtain ⟨d', hd'⟩ := hs.answered h hlt hwas
      exact ⟨d', (decisions_answer_of_not_mem hmem).trans hd'⟩
  fresh := by
    intro h hle
    have hnot : h ∉ out := fun hmem => Nat.not_lt.mpr hle (hs.known h (hout h hmem))
    obtain ⟨hsl, hno⟩ := hs.fresh h hle
    refine ⟨?_, (decisions_answer_of_not_mem hnot).trans hno⟩
    show (if h ∈ out then some d else s.slot h) = none
    rw [if_neg hnot, hsl]
  shut := hc

theorem Sound.push (hs : Sound s) (ho : s.closed = false) (room : List Nat) :
    Sound { s with arrived := s.arrived + 1, pending := s.pending.push s.arrived room } where
  ordered := by
    rw [Slice.view_push, List.pairwise_append]
    refine ⟨hs.ordered, List.pairwise_singleton _ _, ?_⟩
    intro x hx y hy
    rw [List.mem_singleton.mp hy]
    exact hs.known x hx
  known := by
    intro h hmem
    rw [Slice.view_push, List.mem_append, List.mem_singleton] at hmem
    rcases hmem with hmem | rfl
    · exact Nat.lt_succ_of_lt (hs.known h hmem)
    · exact Nat.lt_succ_self _
  unanswered := by
    intro h hmem
    rw [Slice.view_push, List.mem_append, List.mem_singleton] at hmem
    rcases hmem with hmem | rfl
    · exact hs.unanswered h hmem
    · exact hs.fresh _ (Nat.le_refl _)
  answered := by
    intro h hlt hnot
    rw [Slice.view_push, List.mem_append, List.mem_singleton] at hnot
    have hb : h < s.arrived := by
      have hne : h ≠ s.arrived := fun heq => hnot (.inr heq)
      have hle : h < s.arrived + 1 := hlt
      omega
    exact hs.answered h hb fun hmem => hnot (.inl hmem)
  fresh := fun h hle => hs.fresh h (Nat.le_of_succ_le hle)
  shut := fun hc => by rw [ho] at hc; cases hc

theorem Sound.turnAway (hs : Sound s) (hc : s.closed = true) :
    Sound { s.answer [s.arrived] allowed with arrived := s.arrived + 1 } where
  ordered := hs.ordered
  known := fun h hmem => Nat.lt_succ_of_lt (hs.known h hmem)
  unanswered := by
    intro h hmem
    have hin : h ∈ s.pending.view := hmem
    rw [hs.shut hc] at hin
    cases hin
  answered := by
    intro h hlt hnot
    by_cases heq : h = s.arrived
    · subst heq
      have hn := (hs.fresh _ (Nat.le_refl s.arrived)).2
      refine ⟨allowed, (decisions_answer_of_mem (List.nodup_singleton _)
        (List.mem_singleton_self _)).trans ?_⟩
      rw [hn, List.nil_append]
    · have hb : h < s.arrived := Nat.lt_of_le_of_ne (Nat.le_of_lt_succ hlt) heq
      obtain ⟨d, hd⟩ := hs.answered h hb hnot
      exact ⟨d, (decisions_answer_of_not_mem (by simpa using heq)).trans hd⟩
  fresh := by
    intro h hle
    have hne : h ∉ [s.arrived] := by
      rw [List.mem_singleton]
      exact (Nat.ne_of_lt hle).symm
    obtain ⟨hsl, hn⟩ := hs.fresh h (Nat.le_of_succ_le hle)
    refine ⟨?_, (decisions_answer_of_not_mem hne).trans hn⟩
    show (if h ∈ [s.arrived] then some allowed else s.slot h) = none
    rw [if_neg hne, hsl]
  shut := fun _ => hs.shut hc

theorem Sound.receive (hs : Sound s) (h : Nat) : Sound (s.receive h) where
  ordered := hs.ordered
  known := hs.known
  unanswered := by
    intro x hmem
    refine ⟨?_, (hs.unanswered x hmem).2⟩
    show Function.update s.slot h none x = none
    rw [Function.update_apply, (hs.unanswered x hmem).1, ite_self]
  answered := hs.answered
  fresh := by
    intro x hle
    refine ⟨?_, (hs.fresh x hle).2⟩
    show Function.update s.slot h none x = none
    rw [Function.update_apply, (hs.fresh x hle).1, ite_self]
  shut := hs.shut

/-! ## What each call does -/

theorem Sound.enqueue_eq (hs : Sound s) (room : List Nat) :
    s.enqueue room = some (if s.closed then { s.answer [s.arrived] allowed with
      arrived := s.arrived + 1 } else { s with
      arrived := s.arrived + 1, pending := s.pending.push s.arrived room }) := by
  unfold State.enqueue
  split
  · exact send_eq (hs.fresh _ (Nat.le_refl _)).1
  · rfl

theorem Sound.releaseOne_eq (hs : Sound s) (d : HoldDecision) {rest : List Nat}
    (hv : s.pending.view = h :: rest) :
    s.releaseOne d = some ({ s.answer [h] d with pending := s.pending.next }, true) := by
  have hmem : h ∈ s.pending.view := hv ▸ List.mem_cons_self
  unfold State.releaseOne
  rw [hv]
  simp only [send_eq (s := { s with pending := s.pending.next }) (hs.unanswered h hmem).1]
  rfl

theorem Sound.pop (hs : Sound s) (d : HoldDecision) {rest : List Nat}
    (hv : s.pending.view = h :: rest) :
    Sound { s.answer [h] d with pending := s.pending.next } := by
  have hn := hs.nodup
  rw [hv] at hn
  have ht : s.pending.next.view = rest := by rw [Slice.view_next, hv, List.tail_cons]
  apply hs.answer d (List.nodup_singleton h)
  · intro x hx
    rw [List.mem_singleton.mp hx, hv]
    exact List.mem_cons_self
  · rw [ht, hv]
    exact List.sublist_cons_self h rest
  · intro x
    rw [ht, hv, List.mem_cons, List.mem_singleton]
    constructor
    · intro hx
      refine ⟨.inr hx, ?_⟩
      rintro rfl
      exact (List.nodup_cons.mp hn).1 hx
    · rintro ⟨rfl | hx, hne⟩
      · exact absurd rfl hne
      · exact hx
  · intro hc
    rw [Slice.view_next, hs.shut hc, List.tail_nil]

theorem Sound.releaseByIndex_eq (hs : Sound s) (d : HoldDecision) {i : Nat}
    (hv : s.pending.view[i]? = some h) : s.releaseByIndex i d =
      some ({ s.answer [h] d with pending := s.pending.removeAt i }, true) := by
  have hmem : h ∈ s.pending.view := List.mem_of_getElem? hv
  unfold State.releaseByIndex
  rw [if_neg (by omega), Int.toNat_natCast, hv]
  simp only [send_eq (s := { s with pending := s.pending.removeAt i }) (hs.unanswered h hmem).1]
  rfl

theorem Sound.cut (hs : Sound s) (d : HoldDecision) {i : Nat} (hv : s.pending.view[i]? = some h) :
    Sound { s.answer [h] d with pending := s.pending.removeAt i } := by
  have hcut : (s.pending.removeAt i).view = s.pending.view.eraseIdx i := Slice.view_removeAt _ _
  apply hs.answer d (List.nodup_singleton h)
  · intro x hx
    rw [List.mem_singleton.mp hx]
    exact List.mem_of_getElem? hv
  · rw [hcut]
    exact List.eraseIdx_sublist _ _
  · intro x
    obtain ⟨hi, hget⟩ := List.getElem?_eq_some_iff.mp hv
    rw [hcut, List.mem_singleton, ← List.Nodup.erase_getElem hs.nodup i hi, hget,
      hs.nodup.mem_erase_iff, and_comm]
  · intro hc
    rw [hcut, hs.shut hc]
    rfl

theorem Sound.sendAll_eq (hs : Sound s) (closed : Bool) (d : HoldDecision) :
    State.sendAll { s with closed := closed } d s.pending.view =
      some { s.answer s.pending.view d with closed := closed } :=
  hold_queue.sendAll_eq hs.nodup fun h hmem => (hs.unanswered h hmem).1

theorem Sound.drain (hs : Sound s) (closed : Bool) (d : HoldDecision) :
    Sound { s.answer s.pending.view d with pending := .empty, closed := closed } := by
  apply hs.answer d hs.nodup (fun _ hmem => hmem)
  · exact List.nil_sublist _
  · intro x
    rw [Slice.view_empty]
    constructor
    · exact fun hmem => absurd hmem List.not_mem_nil
    · exact fun hx => absurd hx.1 hx.2
  · exact fun _ => rfl

end sound

def arrivals (ops : List Op) : Nat :=
  (ops.filter fun op => match op with | .enqueue _ => true | _ => false).length

/-- No call blocks, and each leaves the queue sound. -/
theorem sound_step {s : State} (hs : Sound s) (op : Op) :
    ∃ t, step s op = some t ∧ Sound t ∧ t.arrived = s.arrived + arrivals [op] ∧
      (t.closed = true ↔ s.closed = true ∨ op = .close) := by
  cases op with
  | enqueue room =>
    refine ⟨_, hs.enqueue_eq room, ?_⟩
    by_cases hc : s.closed = true
    · rw [if_pos hc]
      exact ⟨hs.turnAway hc, rfl, by simp [State.answer]⟩
    · rw [if_neg hc]
      exact ⟨hs.push (Bool.eq_false_iff.mpr hc) room, rfl, by simp⟩
  | releaseOne d =>
    cases hv : s.pending.view with
    | nil =>
      refine ⟨s, ?_, hs, rfl, by simp⟩
      simp [step, State.releaseOne, hv]
    | cons h rest =>
      refine ⟨_, ?_, hs.pop d hv, rfl, by simp [State.answer]⟩
      rw [step, hs.releaseOne_eq d hv, Option.map_some]
  | releaseAll d =>
    refine ⟨_, ?_, hs.drain s.closed d, rfl, by simp⟩
    have hse := hs.sendAll_eq s.closed d
    rw [step, State.releaseAll, hse, Option.map_some]
  | releaseByIndex i d =>
    rcases lt_or_ge i 0 with hneg | hpos
    · refine ⟨s, ?_, hs, rfl, by simp⟩
      rw [step, State.releaseByIndex, if_pos hneg, Option.map_some]
    · obtain ⟨j, rfl⟩ := Int.eq_ofNat_of_zero_le hpos
      cases hv : s.pending.view[j]? with
      | none =>
        refine ⟨s, ?_, hs, rfl, by simp⟩
        simp [step, State.releaseByIndex, hv]
      | some h =>
        refine ⟨_, ?_, hs.cut d hv, rfl, by simp [State.answer]⟩
        rw [step, hs.releaseByIndex_eq d hv, Option.map_some]
  | close =>
    by_cases hc : s.closed = true
    · refine ⟨s, ?_, hs, rfl, by simp [hc]⟩
      rw [step, State.close, if_pos hc]
    · refine ⟨_, ?_, hs.drain true allowed, rfl, by simp⟩
      have hse := hs.sendAll_eq true allowed
      rw [step, State.close, if_neg hc]
      simp only [hse, Option.map_some]
  | receive h => exact ⟨_, rfl, hs.receive h, rfl, by simp [State.receive]⟩

/-! ## The law -/

/-- What the calls of the list leave behind. -/
structure Keeps (ops : List Op) (s : State) : Prop where
  /-- Every call of the queue is pending and unanswered, or it was answered once. -/
  once : s.arrived = arrivals ops ∧ ∀ h < s.arrived,
    (h ∈ s.pending.view ∧ s.decisions h = []) ∨ (h ∉ s.pending.view ∧ ∃ d, s.decisions h = [d])
  /-- After `Close` nothing is pending, and what comes later is allowed at once. -/
  closed : .close ∈ ops → s.pending.view = [] ∧ ∀ room, ∃ t, s.enqueue room = some t ∧
    t.pending.view = [] ∧ t.decisions s.arrived = [allowed]
  /-- `ReleaseOne` answers the call that has been pending for the longest. -/
  oldest : ∀ d h rest, s.pending.view = h :: rest → (∀ later ∈ rest, h < later) ∧
    ∃ t, s.releaseOne d = some (t, true) ∧ t.pending.view = rest ∧ t.decisions h = [d]

theorem arrivals_cons (op : Op) (ops : List Op) :
    arrivals (op :: ops) = arrivals [op] + arrivals ops := by
  unfold arrivals
  rw [← List.singleton_append, List.filter_append, List.length_append]

theorem sound_run {s : State} (hs : Sound s) (ops : List Op) :
    ∃ t, runs.run step s ops = some t ∧ Sound t ∧ t.arrived = s.arrived + arrivals ops ∧
      (t.closed = true ↔ s.closed = true ∨ .close ∈ ops) := by
  induction ops generalizing s with
  | nil => exact ⟨s, rfl, hs, rfl, by simp⟩
  | cons op ops ih =>
    obtain ⟨u, hst, hu, ha, hc⟩ := sound_step hs op
    obtain ⟨t, hrun, ht, ha', hc'⟩ := ih hu
    refine ⟨t, ?_, ht, ?_, ?_⟩
    · rw [runs.run, hst, Option.bind_some, hrun]
    · rw [ha', ha, arrivals_cons op ops, Nat.add_assoc]
    · rw [hc', hc, List.mem_cons, or_assoc, eq_comm (a := op)]

theorem Sound.keeps {ops : List Op} {s : State} (hs : Sound s) (ha : s.arrived = arrivals ops)
    (hc : .close ∈ ops → s.closed = true) : Keeps ops s where
  once := by
    refine ⟨ha, fun h hlt => ?_⟩
    by_cases hmem : h ∈ s.pending.view
    · exact .inl ⟨hmem, (hs.unanswered h hmem).2⟩
    · exact .inr ⟨hmem, hs.answered h hlt hmem⟩
  closed := by
    intro hcl
    have hsh := hc hcl
    refine ⟨hs.shut hsh, fun room => ⟨_, hs.enqueue_eq room, ?_⟩⟩
    rw [if_pos hsh]
    refine ⟨hs.shut hsh, ?_⟩
    have hn := (hs.fresh _ (Nat.le_refl s.arrived)).2
    refine (decisions_answer_of_mem (List.nodup_singleton _) (List.mem_singleton_self _)).trans ?_
    rw [hn, List.nil_append]
  oldest := by
    intro d h rest hv
    have ho := hs.ordered
    rw [hv] at ho
    refine ⟨(List.pairwise_cons.mp ho).1, _, hs.releaseOne_eq d hv, ?_, ?_⟩
    · show s.pending.next.view = rest
      rw [Slice.view_next, hv, List.tail_cons]
    · have hmem : h ∈ s.pending.view := hv ▸ List.mem_cons_self
      refine (decisions_answer_of_mem (List.nodup_singleton _) (List.mem_singleton_self _)).trans ?_
      rw [(hs.unanswered h hmem).2, List.nil_append]

/-- Whatever is called on a queue, no call blocks, and no held call is lost or answered
twice. -/
theorem held_calls_are_answered_once (ops : List Op) :
    ∃ s, runs.run step newHoldQueue ops = some s ∧ Keeps ops s := by
  obtain ⟨s, hrun, hs, ha, hc⟩ := sound_run newHoldQueue_sound ops
  refine ⟨s, hrun, hs.keeps ?_ ?_⟩
  · rw [ha]
    exact Nat.zero_add _
  · exact fun hcl => hc.mpr (.inr hcl)

end faultbox.hold_queue
