-- ReleaseInOrder of the explore scheduler, beside calls that are enqueued meanwhile. The law:
-- it never fails, and once it has returned, the calls that were first in the queue when its
-- wait ended were released in the order of the permutation, and all others are pending in
-- the order of their arrival. It waits for nothing but the calls that it still needs.
import Faultbox.HoldQueue
import Faultbox.Permutations

open goslice

namespace faultbox.release_order

open explore_hold (permutationFromIndex currentIndex)
open hold_queue (HoldDecision Op Sound allowed)

/-! ## The machine -/

/-- Where `ReleaseInOrder` stands: before the check of `Wait`, parked on the condition, in the
loop of the releases, or back. -/
inductive Scheduler where
  | waiting
  | parked
  | releasing (todo released : List Nat)
  | finished
  | failed
deriving DecidableEq

/-- The queue, the scheduler, and what was pending and how many had arrived when the wait
ended. -/
structure State where
  queue : hold_queue.State
  scheduler : Scheduler
  ended : Option (List Nat × Nat)

inductive Act where
  | enqueue (room : List Nat)
  | receive (h : Nat)
  | scheduler
deriving DecidableEq

/-- `cond.Broadcast`. -/
def Scheduler.wake : Scheduler → Scheduler
  | .parked => .waiting
  | other => other

/-- One step of the goroutine of the scheduler, from lock to lock. -/
def stepScheduler (n permIndex : Nat) (s : State) : Option State :=
  match s.scheduler with
  | .waiting =>
    if s.queue.pending.len < n ∧ s.queue.closed = false then
      some { s with scheduler := .parked }
    else
      some { s with
        scheduler := .releasing (permutationFromIndex n permIndex) []
        ended := some (s.queue.pending.view, s.queue.arrived) }
  | .releasing [] _ => some { s with scheduler := .finished }
  | .releasing (target :: rest) released =>
    (s.queue.releaseByIndex (currentIndex target released) allowed).map fun (queue, ok) =>
      { s with
        queue := queue
        scheduler := if ok then .releasing rest (target :: released) else .failed }
  | _ => none

def step (n permIndex : Nat) (s : State) : Act → Option State
  | .enqueue room =>
    (s.queue.enqueue room).map fun queue =>
      { s with
        queue := queue
        scheduler := if s.queue.closed then s.scheduler else s.scheduler.wake }
  | .receive h => some { s with queue := s.queue.receive h }
  | .scheduler => stepScheduler n permIndex s

/-- A queue that was used before, and never closed. -/
structure OpenQueue where
  ops : List Op
  unclosed : Op.close ∉ ops

theorem OpenQueue.sound_state (q : OpenQueue) :
    ∃ s, runs.run hold_queue.step hold_queue.newHoldQueue q.ops = some s ∧ Sound s ∧
      s.closed = false := by
  obtain ⟨s, hrun, hs, -, hc⟩ :=
    hold_queue.sound_run hold_queue.newHoldQueue_sound q.ops
  refine ⟨s, hrun, hs, Bool.eq_false_iff.mpr fun h => ?_⟩
  rcases hc.mp h with h | h
  · cases h
  · exact q.unclosed h

def OpenQueue.state (q : OpenQueue) : hold_queue.State :=
  (runs.run hold_queue.step hold_queue.newHoldQueue q.ops).getD hold_queue.newHoldQueue

theorem OpenQueue.sound (q : OpenQueue) : Sound q.state ∧ q.state.closed = false := by
  obtain ⟨s, hrun, hs, ho⟩ := q.sound_state
  unfold OpenQueue.state
  rw [hrun]
  exact ⟨hs, ho⟩

def start (q : OpenQueue) : State := ⟨q.state, .waiting, none⟩

/-! ## Positions in the live queue -/

/-- The positions of the first `n` that are not released. -/
def left (n : Nat) (released : List Nat) : List Nat :=
  (List.range n).filter fun i => i ∉ released

theorem left_nil (n : Nat) : left n [] = List.range n := by
  unfold left
  rw [List.filter_eq_self]
  intro i _
  simp

theorem released_below {released : List Nat} (hn : released.Nodup) (target : Nat) :
    ((List.range target).filter fun i => i ∈ released).length =
      released.countP fun prev => prev < target := by
  rw [List.countP_eq_length_filter]
  apply List.Perm.length_eq
  rw [List.perm_ext_iff_of_nodup (List.nodup_range.filter _) (hn.filter _)]
  intro i
  simp [and_comm]

/-- Behind as many calls as `currentIndex` says stands the target. -/
theorem left_split {released : List Nat} (hno : released.Nodup) {target n : Nat}
    (hlt : target < n) (hnot : target ∉ released) :
    ∃ before behind, left n released = before ++ target :: behind ∧
      before.length = currentIndex target released ∧
      left n (target :: released) = before ++ behind := by
  have hr : List.range n =
      List.range target ++ target :: List.range' (target + 1) (n - (target + 1)) := by
    have hn : n = target + (n - (target + 1) + 1) := by omega
    rw [List.range_eq_range', List.range_eq_range']
    conv_lhs => rw [hn, ← List.range'_append_1, Nat.zero_add, List.range'_succ]
  refine ⟨(List.range target).filter (fun i => i ∉ released),
    (List.range' (target + 1) (n - (target + 1))).filter (fun i => i ∉ released), ?_, ?_, ?_⟩
  · unfold left
    rw [hr, List.filter_append, List.filter_cons_of_pos (by simpa using hnot)]
  · have hb := released_below hno target
    have hsum := List.length_eq_length_filter_add (l := List.range target) fun i => i ∈ released
    rw [List.length_range, hb] at hsum
    unfold currentIndex
    simp only [decide_not] at hsum ⊢
    omega
  · unfold left
    rw [hr, List.filter_append, List.filter_cons_of_neg (by simp)]
    congr 1
    · apply List.filter_congr
      intro i hi
      have hne : i ≠ target := Nat.ne_of_lt (List.mem_range.mp hi)
      simp [hne]
    · apply List.filter_congr
      intro i hi
      have hne : i ≠ target := by
        rw [List.mem_range'_1] at hi
        omega
      simp [hne]

/-! ## The invariant -/

def entry (w : List Nat) (i : Nat) : Nat := (w[i]?).getD 0

theorem map_entry_range {w : List Nat} {n : Nat} (hn : n ≤ w.length) :
    (List.range n).map (entry w) = w.take n := by
  apply List.ext_getElem?
  intro i
  rw [List.getElem?_map, List.getElem?_take]
  by_cases hi : i < n
  · have hin : i < w.length := by omega
    rw [List.getElem?_range hi, if_pos hi, Option.map_some, entry, List.getElem?_eq_getElem hin,
      Option.getD_some]
  · rw [List.getElem?_eq_none (by simpa using hi), if_neg hi, Option.map_none]

section invariant

variable (n permIndex : Nat) (sent : List (Nat × HoldDecision))

/-- The loop of the releases: those of the permutation so far were answered in its order, and
what is pending are the others of the first `n`, the calls behind them, and the calls that
came later. -/
structure Released (s : State) (todo released : List Nat) (w : List Nat) (m : Nat) : Prop where
  ended : s.ended = some (w, m)
  enough : n ≤ w.length
  split : permutationFromIndex n permIndex = released.reverse ++ todo
  answered : s.queue.sent = sent ++ released.reverse.map fun i => (entry w i, allowed)
  pending : s.queue.pending.view =
    (left n released).map (entry w) ++ (w.drop n ++ List.range' m (s.queue.arrived - m))
  later : m ≤ s.queue.arrived

/-- What holds at each place of the scheduler. -/
def Stage (s : State) : Prop :=
  match s.scheduler with
  | .waiting => s.queue.sent = sent
  | .parked => s.queue.sent = sent ∧ s.queue.pending.len < n
  | .releasing todo released => ∃ w m, Released n permIndex sent s todo released w m
  | .finished => ∃ released w m, Released n permIndex sent s [] released w m
  | .failed => False

structure Inv (s : State) : Prop where
  sound : Sound s.queue
  isOpen : s.queue.closed = false
  stage : Stage n permIndex sent s

end invariant

theorem start_inv (q : OpenQueue) (n permIndex : Nat) :
    Inv n permIndex q.state.sent (start q) where
  sound := q.sound.1
  isOpen := q.sound.2
  stage := rfl

section step

variable {n permIndex : Nat} {sent : List (Nat × HoldDecision)} {s t : State}

theorem Released.enqueue {todo released w : List Nat} {m : Nat}
    (h : Released n permIndex sent s todo released w m) (room : List Nat) (place : Scheduler) :
    Released n permIndex sent
      { s with
        queue := { s.queue with
          arrived := s.queue.arrived + 1, pending := s.queue.pending.push s.queue.arrived room }
        scheduler := place } todo released w m where
  ended := h.ended
  enough := h.enough
  split := h.split
  answered := h.answered
  pending := by
    have hl := h.later
    have hnew : s.queue.arrived + 1 - m = s.queue.arrived - m + 1 := by omega
    rw [Slice.view_push, h.pending]
    show _ = (left n released).map (entry w) ++
      (w.drop n ++ List.range' m (s.queue.arrived + 1 - m))
    rw [hnew, List.range'_1_concat, Nat.add_sub_cancel' hl]
    simp
  later := Nat.le_succ_of_le h.later

theorem inv_enqueue (h : Inv n permIndex sent s) (room : List Nat)
    (hs : step n permIndex s (.enqueue room) = some t) : Inv n permIndex sent t := by
  have ho : ¬s.queue.closed = true := by simp [h.isOpen]
  rw [step, h.sound.enqueue_eq room, Option.map_some, if_neg ho, if_neg ho] at hs
  cases hs
  refine ⟨h.sound.push h.isOpen room, h.isOpen, ?_⟩
  have hst := h.stage
  unfold Stage at hst ⊢
  cases hp : s.scheduler with
  | waiting =>
    rw [hp] at hst
    exact hst
  | parked =>
    rw [hp] at hst
    exact hst.1
  | releasing todo released =>
    rw [hp] at hst
    obtain ⟨w, m, hrel⟩ := hst
    exact ⟨w, m, hrel.enqueue room _⟩
  | finished =>
    rw [hp] at hst
    obtain ⟨released, w, m, hrel⟩ := hst
    exact ⟨released, w, m, hrel.enqueue room _⟩
  | failed =>
    rw [hp] at hst
    exact hst

theorem inv_receive (h : Inv n permIndex sent s) (x : Nat)
    (hs : step n permIndex s (.receive x) = some t) : Inv n permIndex sent t := by
  simp only [step, Option.some.injEq] at hs
  subst hs
  refine ⟨h.sound.receive x, h.isOpen, ?_⟩
  have hst := h.stage
  unfold Stage at hst ⊢
  cases hp : s.scheduler with
  | releasing todo released =>
    simp only [hp] at hst ⊢
    obtain ⟨w, m, hrel⟩ := hst
    exact ⟨w, m, ⟨hrel.ended, hrel.enough, hrel.split, hrel.answered, hrel.pending, hrel.later⟩⟩
  | finished =>
    simp only [hp] at hst ⊢
    obtain ⟨released, w, m, hrel⟩ := hst
    exact ⟨released, w, m,
      ⟨hrel.ended, hrel.enough, hrel.split, hrel.answered, hrel.pending, hrel.later⟩⟩
  | waiting =>
    simp only [hp] at hst ⊢
    exact hst
  | parked =>
    simp only [hp] at hst ⊢
    exact hst
  | failed =>
    simp only [hp] at hst

/-- One turn of the loop: the call at the computed position is the one that stood at the
target when the wait ended. -/
theorem Released.release {target : Nat} {rest released w : List Nat} {m : Nat}
    (h : Released n permIndex sent s (target :: rest) released w m) :
    s.queue.pending.view[currentIndex target released]? = some (entry w target) ∧
      ∀ queue : hold_queue.State,
        queue.sent = s.queue.sent ++ [(entry w target, allowed)] →
        queue.arrived = s.queue.arrived →
        queue.pending.view = s.queue.pending.view.eraseIdx (currentIndex target released) →
        Released n permIndex sent
          { s with queue := queue, scheduler := .releasing rest (target :: released) }
          rest (target :: released) w m := by
  have hp := permutations.permutationFromIndex_perm n permIndex
  have hn : (released.reverse ++ target :: rest).Nodup := by
    rw [← h.split]
    exact hp.nodup_iff.mpr List.nodup_range
  have hlt : target < n := by
    rw [← List.mem_range, ← hp.mem_iff, h.split]
    simp
  have hnot : target ∉ released := by
    intro hmem
    exact (List.nodup_append.mp hn).2.2 target (List.mem_reverse.mpr hmem) target
      List.mem_cons_self rfl
  have hrel : released.Nodup := List.nodup_reverse.mp (List.nodup_append.mp hn).1
  obtain ⟨before, behind, hl, hlen, hl'⟩ := left_split hrel hlt hnot
  have hv : s.queue.pending.view = before.map (entry w) ++ entry w target ::
      (behind.map (entry w) ++ (w.drop n ++ List.range' m (s.queue.arrived - m))) := by
    rw [h.pending, hl]
    simp
  have hat : currentIndex target released = (before.map (entry w)).length := by
    rw [List.length_map, hlen]
  refine ⟨?_, fun queue hs ha hpe => ?_⟩
  · rw [hv, hat, List.getElem?_append_right (Nat.le_refl _), Nat.sub_self]
    rfl
  · refine ⟨h.ended, h.enough, ?_, ?_, ?_, ha ▸ h.later⟩
    · rw [h.split]
      simp
    · show queue.sent = _
      rw [hs, h.answered]
      simp
    · show queue.pending.view = _
      rw [hpe, hv, hat, List.eraseIdx_append_of_length_le (Nat.le_refl _), Nat.sub_self,
        List.eraseIdx_cons_zero, hl', List.map_append, List.append_assoc]
      show _ = _ ++ (_ ++ (w.drop n ++ List.range' m (queue.arrived - m)))
      rw [ha]

theorem inv_scheduler (h : Inv n permIndex sent s)
    (hs : stepScheduler n permIndex s = some t) : Inv n permIndex sent t := by
  have hst := h.stage
  unfold Stage at hst
  unfold stepScheduler at hs
  split at hs
  · rename_i hp
    simp only [hp] at hst
    split at hs
    · rename_i hfew
      cases hs
      exact ⟨h.sound, h.isOpen, hst, hfew.1⟩
    · rename_i hm
      cases hs
      have he : n ≤ s.queue.pending.view.length := by
        rw [Slice.length_view]
        by_contra hlt
        exact hm ⟨Nat.not_le.mp hlt, h.isOpen⟩
      refine ⟨h.sound, h.isOpen, s.queue.pending.view, s.queue.arrived, rfl, he, rfl, ?_, ?_,
        Nat.le_refl _⟩
      · show s.queue.sent = _
        simp [hst]
      · show s.queue.pending.view = _
        rw [left_nil, map_entry_range he, Nat.sub_self, List.range'_zero, List.append_nil,
          List.take_append_drop]
  · rename_i released hp
    simp only [hp] at hst
    cases hs
    obtain ⟨w, m, hrel⟩ := hst
    exact ⟨h.sound, h.isOpen, released, w, m,
      ⟨hrel.ended, hrel.enough, hrel.split, hrel.answered, hrel.pending, hrel.later⟩⟩
  · rename_i target rest released hp
    simp only [hp] at hst
    obtain ⟨w, m, hrel⟩ := hst
    obtain ⟨hget, hn⟩ := hrel.release
    rw [h.sound.releaseByIndex_eq allowed hget] at hs
    cases hs
    refine ⟨h.sound.cut allowed hget, h.isOpen, w, m, ?_⟩
    apply hn
    · rfl
    · rfl
    · exact Slice.view_removeAt _ _
  · cases hs

theorem inv_step (a : Act) (hs : step n permIndex s a = some t) (h : Inv n permIndex sent s) :
    Inv n permIndex sent t := by
  cases a with
  | enqueue room => exact inv_enqueue h room hs
  | receive x => exact inv_receive h x hs
  | scheduler => exact inv_scheduler h hs

/-! ## It returns -/

/-- The steps that the scheduler can still take without another call. -/
def Scheduler.weight (n : Nat) : Scheduler → Nat
  | .waiting => n + 2
  | .parked => n + 1
  | .releasing todo _ => todo.length + 1
  | .finished => 0
  | .failed => 0

theorem weight_wake (n : Nat) (place : Scheduler) :
    place.wake.weight n ≤ place.weight n + 1 := by
  cases place with
  | parked => exact Nat.le_refl _
  | _ => exact Nat.le_succ _

theorem weight_scheduler (hs : stepScheduler n permIndex s = some t) :
    t.scheduler.weight n < s.scheduler.weight n := by
  have hl : (permutationFromIndex n permIndex).length = n := by
    rw [(permutations.permutationFromIndex_perm n permIndex).length_eq, List.length_range]
  unfold stepScheduler at hs
  split at hs
  · rename_i hp
    rw [hp]
    split at hs
    · cases hs
      exact Nat.lt_succ_self _
    · cases hs
      show (permutationFromIndex n permIndex).length + 1 < n + 2
      omega
  · rename_i released hp
    rw [hp]
    cases hs
    exact Nat.lt_succ_self _
  · rename_i target rest released hp
    rw [hp]
    obtain ⟨⟨queue, ok⟩, -, rfl⟩ := Option.map_eq_some_iff.mp hs
    cases ok with
    | true => exact Nat.lt_succ_self _
    | false => exact Nat.succ_pos _
  · cases hs

def Act.isEnqueue : Act → Bool
  | .enqueue _ => true
  | _ => false

theorem turns_le {acts : List Act} (hrun : runs.run (step n permIndex) s acts = some t) :
    acts.count .scheduler + t.scheduler.weight n ≤
      s.scheduler.weight n + acts.countP Act.isEnqueue := by
  induction acts generalizing s with
  | nil =>
    cases hrun
    simp
  | cons a acts ih =>
    obtain ⟨u, hs, hr⟩ := Option.bind_eq_some_iff.mp hrun
    have hle := ih hr
    cases a with
    | enqueue room =>
      obtain ⟨queue, -, rfl⟩ := Option.map_eq_some_iff.mp hs
      rw [List.count_cons_of_ne (by simp), List.countP_cons_of_pos rfl]
      have hw := weight_wake n s.scheduler
      dsimp only at hle
      split at hle
      · omega
      · omega
    | receive x =>
      cases hs
      rw [List.count_cons_of_ne (by simp), List.countP_cons_of_neg (by simp [Act.isEnqueue])]
      exact hle
    | scheduler =>
      have hlt := weight_scheduler hs
      rw [List.count_cons_self, List.countP_cons_of_neg (by simp [Act.isEnqueue])]
      omega

theorem Inv.waits (h : Inv n permIndex sent s) :
    s.scheduler = .finished ∨ (s.scheduler = .parked ∧ s.queue.pending.len < n) ∨
      ∃ t, step n permIndex s .scheduler = some t := by
  have hs := h.stage
  unfold Stage at hs
  cases hp : s.scheduler with
  | waiting =>
    refine .inr (.inr ?_)
    simp only [step, stepScheduler, hp]
    split
    · exact ⟨_, rfl⟩
    · exact ⟨_, rfl⟩
  | parked =>
    simp only [hp] at hs
    exact .inr (.inl ⟨rfl, hs.2⟩)
  | releasing todo released =>
    simp only [hp] at hs
    obtain ⟨w, m, hrel⟩ := hs
    refine .inr (.inr ?_)
    cases todo with
    | nil => exact ⟨_, by simp only [step, stepScheduler, hp]; rfl⟩
    | cons target rest =>
      have hr := h.sound.releaseByIndex_eq allowed hrel.release.1
      simp only [step, stepScheduler, hp, hr, Option.map_some]
      exact ⟨_, rfl⟩
  | finished => exact .inl rfl
  | failed => simp only [hp] at hs

end step

/-! ## The law -/

/-- What a scheduler that is back has done with the calls that its wait found. -/
structure Realised (q : OpenQueue) (n permIndex : Nat) (s : State) (w : List Nat) (m : Nat) :
    Prop where
  ended : s.ended = some (w, m)
  enough : n ≤ w.length
  /-- The releases, in the order of the permutation. -/
  order : s.queue.sent = q.state.sent ++
    (permutationFromIndex n permIndex).map fun i => (entry w i, allowed)
  /-- The permutation names the first `n`, and each of them was allowed once. -/
  once : (permutationFromIndex n permIndex).Perm (List.range n) ∧
    ∀ h ∈ w.take n, s.queue.decisions h = [allowed]
  /-- The others are pending: those of the wait, and those that came later. -/
  others : s.queue.pending.view = w.drop n ++ List.range' m (s.queue.arrived - m)

theorem Inv.realised {q : OpenQueue} {n permIndex : Nat} {s : State}
    (h : Inv n permIndex q.state.sent s) (hf : s.scheduler = .finished) :
    ∃ w m, Realised q n permIndex s w m := by
  have hs := h.stage
  simp only [Stage, hf] at hs
  obtain ⟨released, w, m, hrel⟩ := hs
  have hp := permutations.permutationFromIndex_perm n permIndex
  have hsp : permutationFromIndex n permIndex = released.reverse := by
    rw [hrel.split, List.append_nil]
  have hl : left n released = [] := by
    unfold left
    rw [List.filter_eq_nil_iff]
    intro i hi
    have hmem : i ∈ released := by
      rw [← List.mem_reverse, ← hsp, hp.mem_iff]
      exact hi
    simpa using hmem
  have ho : s.queue.pending.view = w.drop n ++ List.range' m (s.queue.arrived - m) := by
    rw [hrel.pending, hl, List.map_nil, List.nil_append]
  refine ⟨w, m, hrel.ended, hrel.enough, hsp ▸ hrel.answered, ⟨hp, ?_⟩, ho⟩
  intro x hx
  rw [← map_entry_range hrel.enough] at hx
  obtain ⟨i, hi, rfl⟩ := List.mem_map.mp hx
  apply h.sound.decisions_of_sent
  rw [hrel.answered, ← hsp]
  exact List.mem_append_right _ (List.mem_map.mpr ⟨i, hp.mem_iff.mpr hi, rfl⟩)

/-- In every interleaving with calls that are enqueued, the scheduler does not fail, it does
what its permutation says, it waits only while too few calls are pending, and it takes a
bounded number of steps. -/
theorem scheduler_realises_its_permutation (q : OpenQueue) (n permIndex : Nat) (acts : List Act)
    (s : State) (hrun : runs.run (step n permIndex) (start q) acts = some s) :
    s.scheduler ≠ .failed ∧
      (s.scheduler = .finished → ∃ w m, Realised q n permIndex s w m) ∧
      (s.scheduler = .finished ∨ (s.scheduler = .parked ∧ s.queue.pending.len < n) ∨
        ∃ t, step n permIndex s .scheduler = some t) ∧
      acts.count .scheduler ≤ n + 2 + acts.countP Act.isEnqueue := by
  have hinv : Inv n permIndex q.state.sent s :=
    runs.run_preserves (Inv n permIndex q.state.sent)
      (fun _ a _ hs h => inv_step a hs h) hrun (start_inv q n permIndex)
  refine ⟨?_, hinv.realised, hinv.waits, ?_⟩
  · intro hf
    have hst := hinv.stage
    simp only [Stage, hf] at hst
  · have ht := turns_le hrun
    have hsta : (start q).scheduler.weight n = n + 2 := rfl
    omega

def swapped : List Act :=
  [.scheduler, .enqueue [], .scheduler, .enqueue [], .scheduler, .scheduler, .enqueue [],
    .scheduler, .scheduler]

theorem two_calls_swapped : ∃ s,
    runs.run (step 2 1) (start ⟨[], List.not_mem_nil⟩) swapped = some s ∧
      s.queue.sent = [(1, allowed), (0, allowed)] ∧ s.queue.pending.view = [2] ∧
      ∃ w m, Realised ⟨[], List.not_mem_nil⟩ 2 1 s w m := by
  refine ⟨_, rfl, by decide, by decide, ?_⟩
  exact (scheduler_realises_its_permutation ⟨[], List.not_mem_nil⟩ 2 1 swapped _ rfl).2.1
    (by decide)

end faultbox.release_order
