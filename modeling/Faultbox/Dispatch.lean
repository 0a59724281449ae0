-- Emitters that publish in two phases: an entry is recorded in a shared log, and
-- then handed to the subscribers of a snapshot, one after the other, while the
-- other emitters go on. A subscriber gets the entries in the order of the log
-- exactly when no emitter can record one that it wants while another emitter
-- still holds one.
import Faultbox.Runs
import Mathlib.Data.List.Nodup
import Mathlib.Logic.Function.Basic

namespace dispatch

variable {L A E S σ : Type}

/-! ## The machine -/

/-- Where an emitter stands: it has recorded an entry, or hands it to the rest of
its snapshot. -/
inductive Phase (E S : Type) where
  | idle
  | recorded (e : E)
  | dispatching (e : E) (rest : List S)

/-- An emitter, with what it will still publish. -/
structure Emitter (A E S : Type) where
  todo : List A
  phase : Phase E S

/-- The log, the subscribers, the emitters, and what the callbacks share. -/
structure Bus (L A E S σ : Type) where
  log : L
  subs : List S
  emitters : List (Emitter A E S)
  shared : σ

/-- The entry that a log records for an argument, the log after it, and what a
callback does. -/
structure Protocol (L A E S σ : Type) where
  entry : L → A → E
  record : L → A → L
  deliver : S → E → L → σ → σ

def Bus.put (b : Bus L A E S σ) (g : Nat) (em : Emitter A E S) : Bus L A E S σ :=
  { b with emitters := b.emitters.set g em }

/-- The next step of emitter `g`: the record, the snapshot, one callback, the return. -/
def step (p : Protocol L A E S σ) (b : Bus L A E S σ) (g : Nat) : Option (Bus L A E S σ) :=
  match b.emitters[g]? with
  | none => none
  | some em =>
    match em.phase with
    | .idle =>
      match em.todo with
      | [] => none
      | a :: rest =>
        some { b.put g ⟨rest, .recorded (p.entry b.log a)⟩ with log := p.record b.log a }
    | .recorded e => some (b.put g ⟨em.todo, .dispatching e b.subs⟩)
    | .dispatching _ [] => some (b.put g ⟨em.todo, .idle⟩)
    | .dispatching e (s :: rest) =>
      some { b.put g ⟨em.todo, .dispatching e rest⟩ with shared := p.deliver s e b.log b.shared }

/-- Every emitter has published everything. -/
def Bus.Finished (b : Bus L A E S σ) : Prop := ∀ em ∈ b.emitters, em.todo = [] ∧ em.phase = .idle

/-- What one step can be. -/
inductive Moved (p : Protocol L A E S σ) (b : Bus L A E S σ) (g : Nat) : Bus L A E S σ → Prop
  | record {a : A} {rest : List A} (h : b.emitters[g]? = some ⟨a :: rest, .idle⟩) :
      Moved p b g
        { b.put g ⟨rest, .recorded (p.entry b.log a)⟩ with log := p.record b.log a }
  | snapshot {todo : List A} {e : E} (h : b.emitters[g]? = some ⟨todo, .recorded e⟩) :
      Moved p b g (b.put g ⟨todo, .dispatching e b.subs⟩)
  | callback {todo : List A} {e : E} {s : S} {rest : List S}
      (h : b.emitters[g]? = some ⟨todo, .dispatching e (s :: rest)⟩) :
      Moved p b g
        { b.put g ⟨todo, .dispatching e rest⟩ with shared := p.deliver s e b.log b.shared }
  | done {todo : List A} {e : E} (h : b.emitters[g]? = some ⟨todo, .dispatching e []⟩) :
      Moved p b g (b.put g ⟨todo, .idle⟩)

variable {p : Protocol L A E S σ} {b b' start : Bus L A E S σ} {g g' : Nat} {s : S} {m : E → Bool}

theorem step_iff : step p b g = some b' ↔ Moved p b g b' := by
  constructor
  · intro h
    unfold step at h
    split at h
    · cases h
    · rename_i em hg
      obtain ⟨todo, phase⟩ := em
      cases phase with
      | idle =>
        cases todo with
        | nil => cases h
        | cons a rest =>
          cases h
          exact .record hg
      | recorded e =>
        cases h
        exact .snapshot hg
      | dispatching e rest =>
        cases rest with
        | nil =>
          cases h
          exact .done hg
        | cons s rest =>
          cases h
          exact .callback hg
  · intro h
    cases h with
    | record hg => rw [step, hg]
    | snapshot hg => rw [step, hg]
    | callback hg => rw [step, hg]
    | done hg => rw [step, hg]

theorem put_emitters {em : Emitter A E S} (h : g < b.emitters.length) :
    (b.put g em).emitters[g']? = if g' = g then some em else b.emitters[g']? := by
  rw [Bus.put, List.getElem?_set]
  by_cases hg : g = g'
  · subst hg
    rw [if_pos rfl, if_pos h, if_pos rfl]
  · rw [if_neg hg, if_neg (Ne.symm hg)]

theorem lt_of_found {em : Emitter A E S} (h : b.emitters[g]? = some em) :
    g < b.emitters.length := (List.getElem?_eq_some_iff.mp h).1

/-! ## What a subscriber is owed -/

section owed

variable [DecidableEq S]

/-- The entry that the emitter has still to hand to `s`. -/
def Emitter.owes (em : Emitter A E S) (s : S) : Option E :=
  match em.phase with
  | .idle => none
  | .recorded e => some e
  | .dispatching e rest => if s ∈ rest then some e else none

/-- The entry that emitter `g` owes to `s`, if it is one that `s` wants. -/
def Bus.owed (b : Bus L A E S σ) (s : S) (m : E → Bool) (g : Nat) : Option E :=
  ((b.emitters[g]?).bind (·.owes s)).filter m

theorem owed_of_found {em : Emitter A E S} (h : b.emitters[g]? = some em) :
    b.owed s m g = (em.owes s).filter m := by
  rw [Bus.owed, h, Option.bind_some]

theorem owed_put (em : Emitter A E S) (h : g < b.emitters.length) :
    (b.put g em).owed s m = Function.update (b.owed s m) g ((em.owes s).filter m) := by
  funext g'
  rw [Bus.owed, put_emitters h]
  by_cases hg : g' = g
  · subst hg
    rw [if_pos rfl, Function.update_self, Option.bind_some]
  · rw [if_neg hg, Function.update_of_ne hg, Bus.owed]

theorem owed_put_same {em em' : Emitter A E S} (h : b.emitters[g]? = some em)
    (hs : (em'.owes s).filter m = (em.owes s).filter m) :
    (b.put g em').owed s m = b.owed s m := by
  rw [owed_put _ (lt_of_found h), hs, ← owed_of_found h, Function.update_eq_self]

end owed

/-! ## The order of the records -/

/-- One record, by the log and what each emitter will still publish. -/
def recordStep (p : Protocol L A E S σ) (st : L × List (List A)) (g : Nat) :
    Option (L × List (List A)) :=
  match st.2[g]? with
  | some (a :: rest) => some (p.record st.1 a, st.2.set g rest)
  | _ => none

def Bus.pending (b : Bus L A E S σ) : L × List (List A) := (b.log, b.emitters.map (·.todo))

/-- After the records of `order`, the next one of emitter `g` is the entry `e`. -/
def NextIs (p : Protocol L A E S σ) (st : L × List (List A)) (order : List Nat) (g : Nat)
    (e : E) : Prop :=
  ∃ l t a rest, runs.run (recordStep p) st order = some (l, t) ∧ t[g]? = some (a :: rest) ∧
    e = p.entry l a

/-- One emitter can record a wanted entry, and before its next record another
emitter can record a wanted entry too. -/
def Overtakes (p : Protocol L A E S σ) (st : L × List (List A)) (m : E → Bool) : Prop :=
  ∃ order₁ g₁ order₂ g₂ e₁ e₂, g₁ ≠ g₂ ∧ g₁ ∉ order₂ ∧
    NextIs p st order₁ g₁ e₁ ∧ m e₁ = true ∧
    NextIs p st (order₁ ++ g₁ :: order₂) g₂ e₂ ∧ m e₂ = true

theorem recordStep_some {st st' : L × List (List A)} (h : recordStep p st g = some st') :
    ∃ a rest, st.2[g]? = some (a :: rest) ∧ st' = (p.record st.1 a, st.2.set g rest) := by
  unfold recordStep at h
  split at h
  · rename_i a rest hg
    cases h
    exact ⟨a, rest, hg, rfl⟩
  · cases h

/-- The entry that the emitter has recorded and not yet returned from. -/
def Emitter.holds (em : Emitter A E S) : Option E :=
  match em.phase with
  | .idle => none
  | .recorded e => some e
  | .dispatching e _ => some e

/-- The records so far have an order in which whoever holds an entry recorded last
that entry. -/
def Traced (p : Protocol L A E S σ) (start b : Bus L A E S σ) : Prop :=
  ∃ order, runs.run (recordStep p) start.pending order = some b.pending ∧
    ∀ g em e, b.emitters[g]? = some em → em.holds = some e →
      ∃ order₁ order₂, order = order₁ ++ g :: order₂ ∧ g ∉ order₂ ∧
        NextIs p start.pending order₁ g e

theorem pending_put {em em' : Emitter A E S} (h : b.emitters[g]? = some em)
    (ht : em'.todo = em.todo) : (b.put g em').pending = b.pending := by
  have hmap : (b.emitters.set g em').map (·.todo) = b.emitters.map (·.todo) := by
    apply List.ext_getElem?
    intro k
    rw [List.getElem?_map, List.getElem?_map, List.getElem?_set]
    by_cases hk : g = k
    · subst hk
      rw [if_pos rfl, if_pos (lt_of_found h), h, Option.map_some, Option.map_some, ht]
    · rw [if_neg hk]
  rw [Bus.pending, Bus.pending, Bus.put, hmap]

theorem pending_todo {em : Emitter A E S} (h : b.emitters[g]? = some em) :
    b.pending.2[g]? = some em.todo := by
  rw [Bus.pending, List.getElem?_map, h, Option.map_some]

theorem traced_put {em em' : Emitter A E S} (ht : Traced p start b)
    (h : b.emitters[g]? = some em) (hto : em'.todo = em.todo)
    (hh : ∀ e, em'.holds = some e → em.holds = some e) : Traced p start (b.put g em') := by
  obtain ⟨order, hrun, ho⟩ := ht
  refine ⟨order, by rw [pending_put h hto, hrun], fun k em₁ e hk he => ?_⟩
  rw [put_emitters (lt_of_found h)] at hk
  split at hk
  · rename_i heq
    cases hk
    rw [heq]
    exact ho g em e h (hh e he)
  · exact ho k em₁ e hk he

theorem traced_record {a : A} {rest : List A} (ht : Traced p start b)
    (h : b.emitters[g]? = some ⟨a :: rest, .idle⟩) :
    Traced p start
      { b.put g ⟨rest, .recorded (p.entry b.log a)⟩ with log := p.record b.log a } := by
  obtain ⟨order, hrun, ho⟩ := ht
  have hto : b.pending.2[g]? = some (a :: rest) := pending_todo h
  refine ⟨order ++ [g], ?_, fun k em₁ e hk he => ?_⟩
  · rw [runs.run_append hrun, runs.run, recordStep, hto, Option.bind_some, runs.run]
    simp only [Bus.pending, Bus.put, List.map_set]
  · have hk' : (b.put g ⟨rest, .recorded (p.entry b.log a)⟩).emitters[k]? = some em₁ := hk
    rw [put_emitters (lt_of_found h)] at hk'
    split at hk'
    · rename_i heq
      cases hk'
      cases he
      rw [heq]
      exact ⟨order, [], rfl, List.not_mem_nil, b.log, b.pending.2, a, rest, hrun, hto, rfl⟩
    · rename_i hne
      obtain ⟨order₁, order₂, rfl, hnot, hn⟩ := ho k em₁ e hk' he
      refine ⟨order₁, order₂ ++ [g], by rw [List.append_assoc, List.cons_append], ?_, hn⟩
      rw [List.mem_append, List.mem_singleton, not_or]
      exact ⟨hnot, hne⟩

theorem traced_step (ht : Traced p start b) (h : Moved p b g b') : Traced p start b' := by
  cases h with
  | record h => exact traced_record ht h
  | snapshot h => exact traced_put ht h rfl fun _ he => he
  | callback h => exact traced_put ht h rfl fun _ he => he
  | done h => exact traced_put ht h rfl fun _ he => by cases he

/-! ## Deliveries in the order of the log -/

section order

variable [DecidableEq S] {seen : σ → List E} {entries : L → List E}

/-- What `seen` says of the callbacks: `s` sees the entries that it wants, and no
other callback changes that. The log keeps its entries in the order of the records. -/
structure Observes (p : Protocol L A E S σ) (s : S) (m : E → Bool) (seen : σ → List E)
    (entries : L → List E) : Prop where
  recorded : ∀ l a, entries (p.record l a) = entries l ++ [p.entry l a]
  self : ∀ e l sh, seen (p.deliver s e l sh) = if m e then seen sh ++ [e] else seen sh
  other : ∀ s' e l sh, s' ≠ s → seen (p.deliver s' e l sh) = seen sh

/-- `s` has seen the wanted entries of the log, all but the last one if an emitter
still owes it. -/
def InOrder (s : S) (m : E → Bool) (seen : σ → List E) (entries : L → List E)
    (b : Bus L A E S σ) : Prop :=
  ((∀ g, b.owed s m g = none) ∧ (entries b.log).filter m = seen b.shared) ∨
    ∃ g e, b.owed s m g = some e ∧ (∀ g', g' ≠ g → b.owed s m g' = none) ∧
      (entries b.log).filter m = seen b.shared ++ [e]

theorem owed_some {e : E} (h : b.owed s m g = some e) :
    ∃ em, b.emitters[g]? = some em ∧ em.holds = some e ∧ m e = true := by
  rw [Bus.owed, Option.filter_eq_some_iff] at h
  obtain ⟨hb, hm⟩ := h
  obtain ⟨em, hem, ho⟩ := Option.bind_eq_some_iff.mp hb
  refine ⟨em, hem, ?_, hm⟩
  unfold Emitter.owes at ho
  unfold Emitter.holds
  split at ho
  · cases ho
  · exact ho
  · split at ho
    · exact ho
    · cases ho

theorem none_owed {a : A} {rest : List A} (hno : ¬ Overtakes p start.pending m)
    (ht : Traced p start b) (h : b.emitters[g]? = some ⟨a :: rest, .idle⟩)
    (hm : m (p.entry b.log a) = true) (g' : Nat) : b.owed s m g' = none := by
  cases ho : b.owed s m g' with
  | none => rfl
  | some e =>
    obtain ⟨em, hem, hh, hme⟩ := owed_some ho
    obtain ⟨order, hrun, hor⟩ := ht
    obtain ⟨order₁, order₂, rfl, hnot, hn⟩ := hor g' em e hem hh
    have hne : g' ≠ g := by
      rintro rfl
      rw [h] at hem
      cases hem
      cases hh
    exact absurd ⟨order₁, g', order₂, g, e, p.entry b.log a, hne, hnot, hn, hme,
      ⟨b.log, b.pending.2, a, rest, hrun, pending_todo h, rfl⟩, hm⟩ hno

theorem inOrder_of_same (h : InOrder s m seen entries b)
    (ho : b'.owed s m = b.owed s m) (hlog : (entries b'.log).filter m = (entries b.log).filter m)
    (hs : seen b'.shared = seen b.shared) : InOrder s m seen entries b' := by
  rw [InOrder, ho, hlog, hs]
  exact h

theorem inOrder_record {a : A} {rest : List A} (hobs : Observes p s m seen entries)
    (hno : ¬ Overtakes p start.pending m) (ht : Traced p start b)
    (hg : b.emitters[g]? = some ⟨a :: rest, .idle⟩) (h : InOrder s m seen entries b) :
    InOrder s m seen entries
      { b.put g ⟨rest, .recorded (p.entry b.log a)⟩ with log := p.record b.log a } := by
  have hi : b.owed s m g = none := owed_of_found hg
  have ho : ({ b.put g ⟨rest, .recorded (p.entry b.log a)⟩ with log := p.record b.log a } :
      Bus L A E S σ).owed s m =
        Function.update (b.owed s m) g ((some (p.entry b.log a)).filter m) :=
    owed_put _ (lt_of_found hg)
  cases hm : m (p.entry b.log a) with
  | true =>
    have hn := none_owed hno ht hg hm (s := s)
    have hlog : (entries b.log).filter m = seen b.shared := by
      rcases h with ⟨-, hlog⟩ | ⟨g₀, e₀, h₀, -, -⟩
      · exact hlog
      · rw [hn g₀] at h₀
        cases h₀
    refine Or.inr ⟨g, p.entry b.log a, ?_, fun g' hg' => ?_, ?_⟩
    · rw [ho, Function.update_self, Option.filter_some_pos hm]
    · rw [ho, Function.update_of_ne hg', hn]
    · rw [hobs.recorded, List.filter_append, List.filter_cons_of_pos hm, List.filter_nil, hlog]
      rfl
  | false =>
    refine inOrder_of_same h ?_ ?_ rfl
    · rw [ho, Option.filter_some_neg hm, ← hi,
        Function.update_eq_self]
    · rw [hobs.recorded, List.filter_append,
        List.filter_cons_of_neg (Bool.eq_false_iff.mp hm), List.filter_nil,
        List.append_nil]

theorem inOrder_callback {todo : List A} {e : E} {s' : S} {rest : List S}
    (hobs : Observes p s m seen entries)
    (hg : b.emitters[g]? = some ⟨todo, .dispatching e (s' :: rest)⟩)
    (hn : (s' :: rest).Nodup) (h : InOrder s m seen entries b) :
    InOrder s m seen entries
      { b.put g ⟨todo, .dispatching e rest⟩ with shared := p.deliver s' e b.log b.shared } := by
  by_cases hs : s' = s
  · subst hs
    have ha : ({ b.put g ⟨todo, .dispatching e rest⟩ with
        shared := p.deliver s' e b.log b.shared } : Bus L A E S σ).owed s' m =
          Function.update (b.owed s' m) g none := by
      have ho : (⟨todo, .dispatching e rest⟩ : Emitter A E S).owes s' = none :=
        if_neg (List.nodup_cons.mp hn).1
      have hput := owed_put (s := s') (m := m) ⟨todo, .dispatching e rest⟩ (lt_of_found hg)
      rw [ho] at hput
      exact hput
    have hb : b.owed s' m g = (some e).filter m := by
      rw [owed_of_found hg]
      exact congrArg (Option.filter m) (if_pos List.mem_cons_self)
    cases hm : m e with
    | true =>
      rw [Option.filter_some_pos hm] at hb
      rcases h with ⟨hno, -⟩ | ⟨g₀, e₀, h₀, hot, hlog⟩
      · rw [hno] at hb
        cases hb
      · have hsa : g₀ = g := by
          by_contra hne
          rw [hot g (Ne.symm hne)] at hb
          cases hb
        subst hsa
        rw [hb] at h₀
        cases h₀
        refine Or.inl ⟨fun g' => ?_, ?_⟩
        · rw [ha]
          by_cases hg' : g' = g₀
          · rw [hg', Function.update_self]
          · rw [Function.update_of_ne hg', hot g' hg']
        · rw [hobs.self, if_pos hm]
          exact hlog
    | false =>
      rw [Option.filter_some_neg hm] at hb
      refine inOrder_of_same h ?_ rfl ?_
      · rw [ha, ← hb, Function.update_eq_self]
      · rw [hobs.self, if_neg (Bool.eq_false_iff.mp hm)]
  · refine inOrder_of_same h (owed_put_same hg ?_) rfl (hobs.other s' e _ _ hs)
    have hiff : s ∈ s' :: rest ↔ s ∈ rest := by
      rw [List.mem_cons]
      exact or_iff_right (Ne.symm hs)
    simp only [Emitter.owes, hiff]

/-- The subscribers never change, and every snapshot is what is left of them. -/
structure Snapshots (start b : Bus L A E S σ) : Prop where
  subs : b.subs = start.subs
  suffix : ∀ (g : Nat) (em : Emitter A E S) e rest, b.emitters[g]? = some em →
    em.phase = .dispatching e rest → rest <:+ start.subs

omit [DecidableEq S] in
theorem snapshots_put (em : Emitter A E S) (h : Snapshots start b) (hg : g < b.emitters.length)
    (hem : ∀ e rest, em.phase = .dispatching e rest → rest <:+ start.subs) :
    Snapshots start (b.put g em) := by
  refine ⟨h.subs, fun k em₁ e rest hk he => ?_⟩
  rw [put_emitters hg] at hk
  split at hk
  · cases hk
    exact hem e rest he
  · exact h.suffix k em₁ e rest hk he

omit [DecidableEq S] in
theorem snapshots_step (h : Snapshots start b) (hm : Moved p b g b') : Snapshots start b' := by
  cases hm with
  | @record a rest hg =>
    have hput := snapshots_put ⟨rest, .recorded (p.entry b.log a)⟩ h (lt_of_found hg)
      fun e rest he => by cases he
    exact ⟨hput.subs, hput.suffix⟩
  | snapshot hg =>
    refine snapshots_put _ h (lt_of_found hg) fun e rest he => ?_
    cases he
    exact h.subs ▸ List.suffix_rfl
  | @callback todo e s rest hg =>
    have hput := snapshots_put ⟨todo, .dispatching e rest⟩ h (lt_of_found hg) fun e rest he => by
      cases he
      exact (List.suffix_cons _ _).trans (h.suffix g _ _ _ hg rfl)
    exact ⟨hput.subs, hput.suffix⟩
  | done hg => exact snapshots_put _ h (lt_of_found hg) fun e rest he => by cases he

/-- Every run delivers in order when no emitter can overtake another one. -/
theorem run_inOrder (hobs : Observes p s m seen entries) (hno : ¬ Overtakes p start.pending m)
    (hs : s ∈ start.subs) (hn : start.subs.Nodup)
    (hi : ∀ em ∈ start.emitters, em.phase = .idle)
    (hst : (entries start.log).filter m = seen start.shared)
    {sched : List Nat} (hrun : runs.run (step p) start sched = some b) :
    InOrder s m seen entries b := by
  have hp : ∀ (g : Nat) (em : Emitter A E S), start.emitters[g]? = some em →
      em.phase = .idle := fun g em hg =>
    hi em (List.mem_of_getElem? hg)
  have hinv := runs.run_preserves (fun b => Traced p start b ∧ Snapshots start b ∧
      InOrder s m seen entries b) (fun b g b' hste ⟨ht, hsn, hin⟩ => ?_) hrun ?_
  · exact hinv.2.2
  · have hm := step_iff.mp hste
    refine ⟨traced_step ht hm, snapshots_step hsn hm, ?_⟩
    cases hm with
    | record hg => exact inOrder_record hobs hno ht hg hin
    | snapshot hg =>
      refine inOrder_of_same hin (owed_put_same hg ?_) rfl rfl
      have hmem : s ∈ b.subs := hsn.subs ▸ hs
      simp only [Emitter.owes, if_pos hmem]
    | callback hg =>
      exact inOrder_callback hobs hg ((hsn.suffix g _ _ _ hg rfl).sublist.nodup hn) hin
    | done hg => exact inOrder_of_same hin (owed_put_same hg rfl) rfl rfl
  · refine ⟨⟨[], rfl, fun g em e hg he => ?_⟩, ⟨rfl, fun g em e rest hg he => ?_⟩,
      Or.inl ⟨fun g => ?_, hst⟩⟩
    · rw [Emitter.holds, hp g em hg] at he
      cases he
    · rw [hp g em hg] at he
      cases he
    · cases hg : start.emitters[g]? with
      | none => rw [Bus.owed, hg, Option.bind_none, Option.filter_none]
      | some em => rw [owed_of_found hg, Emitter.owes, hp g em hg, Option.filter_none]

theorem seen_of_finished (hin : InOrder s m seen entries b) (hfin : b.Finished) :
    (entries b.log).filter m = seen b.shared := by
  rcases hin with ⟨-, hlog⟩ | ⟨g, e, ho, -, -⟩
  · exact hlog
  · obtain ⟨em, hem, hh, -⟩ := owed_some ho
    rw [Emitter.holds, (hfin em (List.mem_of_getElem? hem)).2] at hh
    cases hh

theorem seen_isPrefix (hin : InOrder s m seen entries b) :
    seen b.shared <+: (entries b.log).filter m := by
  rcases hin with ⟨-, hlog⟩ | ⟨g, e, -, -, hlog⟩
  · exact hlog ▸ List.prefix_rfl
  · exact hlog ▸ List.prefix_append _ _

/-! ## A run that overtakes -/

omit [DecidableEq S] in
theorem run_drain {todo : List A} {e : E} {rest : List S}
    (hg : b.emitters[g]? = some ⟨todo, .dispatching e rest⟩) :
    runs.run (step p) b (List.replicate (rest.length + 1) g) =
      some { b.put g ⟨todo, .idle⟩ with
        shared := rest.foldl (fun sh s => p.deliver s e b.log sh) b.shared } := by
  induction rest generalizing b with
  | nil =>
    have hs : step p b g = some (b.put g ⟨todo, .idle⟩) := step_iff.mpr (.done hg)
    rw [List.length_nil, List.replicate_one, runs.run, hs]
    rfl
  | cons s rest ih =>
    have hs : step p b g = some { b.put g ⟨todo, .dispatching e rest⟩ with
        shared := p.deliver s e b.log b.shared } := step_iff.mpr (.callback hg)
    rw [List.length_cons, List.replicate_succ, runs.run, hs, Option.bind_some, ih]
    · rw [List.foldl_cons]
      simp only [Bus.put, List.set_set]
    · exact (put_emitters (lt_of_found hg)).trans (if_pos rfl)

omit [DecidableEq S] in
theorem run_publish (todo : List A) (e : E) (hg : b.emitters[g]? = some ⟨todo, .recorded e⟩) :
    runs.run (step p) b (List.replicate (b.subs.length + 2) g) =
      some { b.put g ⟨todo, .idle⟩ with
        shared := b.subs.foldl (fun sh s => p.deliver s e b.log sh) b.shared } := by
  have hs : step p b g = some (b.put g ⟨todo, .dispatching e b.subs⟩) :=
    step_iff.mpr (.snapshot hg)
  have hd := run_drain (p := p) (b := b.put g ⟨todo, .dispatching e b.subs⟩)
    ((put_emitters (lt_of_found hg)).trans (if_pos rfl))
  rw [List.replicate_succ, runs.run, hs, Option.bind_some]
  refine hd.trans ?_
  simp only [Bus.put, List.set_set]

theorem seen_foldl (hobs : Observes p s m seen entries) {subs : List S} (hn : subs.Nodup)
    (e : E) (l : L) (sh : σ) :
    seen (subs.foldl (fun sh s' => p.deliver s' e l sh) sh) =
      if s ∈ subs ∧ m e = true then seen sh ++ [e] else seen sh := by
  induction subs generalizing sh with
  | nil => rfl
  | cons s' subs ih =>
    obtain ⟨hnot, hn'⟩ := List.nodup_cons.mp hn
    rw [List.foldl_cons, ih hn']
    by_cases hs : s' = s
    · subst hs
      rw [if_neg fun h => hnot h.1, hobs.self]
      simp only [List.mem_cons_self, true_and]
    · rw [hobs.other s' e l sh hs]
      have hiff : s ∈ s' :: subs ↔ s ∈ subs := by
        rw [List.mem_cons]
        exact or_iff_right (Ne.symm hs)
      simp only [hiff]

/-- What publishing while some emitters are held up leaves: the others are idle
again, the held ones as they were, and `s` has seen more. -/
structure Published (held : Nat → Prop) (seen : σ → List E) (b b' : Bus L A E S σ) : Prop where
  subs : b'.subs = b.subs
  idle : ∀ (k : Nat) (em : Emitter A E S), ¬ held k → b'.emitters[k]? = some em → em.phase = .idle
  held : ∀ k : Nat, held k → b'.emitters[k]? = b.emitters[k]?
  grows : seen b.shared <+: seen b'.shared

theorem publish_once {held : Nat → Prop} {a : A} {rest : List A}
    (hobs : Observes p s m seen entries) (hs : s ∈ b.subs) (hn : b.subs.Nodup)
    (hi : ∀ (k : Nat) (em : Emitter A E S), ¬ held k → b.emitters[k]? = some em →
      em.phase = .idle)
    (hh : ¬ held g) (hg : b.emitters[g]? = some ⟨a :: rest, .idle⟩) :
    ∃ sched b', runs.run (step p) b sched = some b' ∧
      b'.pending = (p.record b.log a, b.pending.2.set g rest) ∧ Published held seen b b' ∧
      seen b'.shared =
        if m (p.entry b.log a) = true then seen b.shared ++ [p.entry b.log a]
        else seen b.shared := by
  let b' : Bus L A E S σ :=
    { log := p.record b.log a
      subs := b.subs
      emitters := b.emitters.set g ⟨rest, .idle⟩
      shared := b.subs.foldl (fun sh s' => p.deliver s' (p.entry b.log a) (p.record b.log a) sh)
        b.shared }
  have hse : seen b'.shared =
      if m (p.entry b.log a) = true then seen b.shared ++ [p.entry b.log a]
      else seen b.shared := by
    rw [seen_foldl hobs hn]
    simp only [hs, true_and]
  have hst : step p b g =
      some { b.put g ⟨rest, .recorded (p.entry b.log a)⟩ with log := p.record b.log a } :=
    step_iff.mpr (.record hg)
  have hp := run_publish (p := p) (g := g)
    (b := { b.put g ⟨rest, .recorded (p.entry b.log a)⟩ with log := p.record b.log a })
    rest (p.entry b.log a) ((put_emitters (lt_of_found hg)).trans (if_pos rfl))
  refine ⟨g :: List.replicate (b.subs.length + 2) g, b', ?_, ?_, ⟨rfl, ?_, ?_, ?_⟩, hse⟩
  · rw [runs.run, hst, Option.bind_some]
    refine hp.trans ?_
    simp only [b', Bus.put, List.set_set]
  · simp only [b', Bus.pending, List.map_set]
  · intro k em hk hem
    have hem' : (b.put g ⟨rest, .idle⟩).emitters[k]? = some em := hem
    rw [put_emitters (lt_of_found hg)] at hem'
    split at hem'
    · cases hem'
      rfl
    · exact hi k em hk hem'
  · intro k hk
    have hne : g ≠ k := by
      rintro rfl
      exact hh hk
    exact List.getElem?_set_ne hne
  · rw [hse]
    split
    · exact List.prefix_append _ _
    · exact List.prefix_rfl

omit [DecidableEq S] in
theorem found_of_pending {a : A} {rest : List A} (h : b.pending.2[g]? = some (a :: rest))
    (hi : ∀ em, b.emitters[g]? = some em → em.phase = .idle) :
    b.emitters[g]? = some ⟨a :: rest, .idle⟩ := by
  rw [Bus.pending, List.getElem?_map] at h
  obtain ⟨⟨todo, phase⟩, hem, ht⟩ := Option.map_eq_some_iff.mp h
  have hp := hi _ hem
  cases ht
  cases hp
  exact hem

theorem publish_order (held : Nat → Prop) (hobs : Observes p s m seen entries)
    {order : List Nat} {st : L × List (List A)} (hs : s ∈ b.subs) (hn : b.subs.Nodup)
    (hi : ∀ (k : Nat) (em : Emitter A E S), ¬ held k → b.emitters[k]? = some em →
      em.phase = .idle)
    (hh : ∀ g ∈ order, ¬ held g)
    (hrun : runs.run (recordStep p) b.pending order = some st) :
    ∃ sched b', runs.run (step p) b sched = some b' ∧ b'.pending = st ∧
      Published held seen b b' := by
  induction order generalizing b with
  | nil =>
    cases hrun
    exact ⟨[], b, rfl, rfl, ⟨rfl, hi, fun _ _ => rfl, List.prefix_rfl⟩⟩
  | cons g order ih =>
    obtain ⟨st₁, hf, hr⟩ := Option.bind_eq_some_iff.mp hrun
    obtain ⟨a, rest, ht, rfl⟩ := recordStep_some hf
    have hg := hh g List.mem_cons_self
    obtain ⟨sched₁, b₁, hrun₁, hpend₁, hpub₁, -⟩ := publish_once hobs hs hn hi hg
      (found_of_pending ht fun em => hi g em hg)
    obtain ⟨sched₂, b₂, hrun₂, hpend₂, hpub₂⟩ := ih (b := b₁) (hpub₁.subs ▸ hs)
      (hpub₁.subs ▸ hn) hpub₁.idle (fun k hk => hh k (List.mem_cons_of_mem g hk))
      (hpend₁ ▸ hr)
    refine ⟨sched₁ ++ sched₂, b₂, by rw [runs.run_append hrun₁, hrun₂], hpend₂,
      ⟨hpub₂.subs.trans hpub₁.subs, hpub₂.idle, fun k hk => ?_, hpub₁.grows.trans hpub₂.grows⟩⟩
    rw [hpub₂.held k hk, hpub₁.held k hk]

omit [DecidableEq S] in
theorem record_and_hold {a : A} {rest : List A}
    (hi : ∀ (k : Nat) (em : Emitter A E S), b.emitters[k]? = some em → em.phase = .idle)
    (hg : b.emitters[g]? = some ⟨a :: rest, .idle⟩) :
    ∃ b', runs.run (step p) b [g] = some b' ∧ b'.subs = b.subs ∧
      b'.pending = (p.record b.log a, b.pending.2.set g rest) ∧
      b'.emitters[g]? = some ⟨rest, .recorded (p.entry b.log a)⟩ ∧
      ∀ (k : Nat) (em : Emitter A E S), ¬ k = g → b'.emitters[k]? = some em →
        em.phase = .idle := by
  have hput : ∀ k : Nat, (b.put g ⟨rest, .recorded (p.entry b.log a)⟩).emitters[k]? =
      if k = g then some ⟨rest, .recorded (p.entry b.log a)⟩ else b.emitters[k]? :=
    fun k => put_emitters (lt_of_found hg)
  have hs : step p b g =
      some { b.put g ⟨rest, .recorded (p.entry b.log a)⟩ with log := p.record b.log a } :=
    step_iff.mpr (.record hg)
  have hrun : runs.run (step p) b [g] =
      some { b.put g ⟨rest, .recorded (p.entry b.log a)⟩ with log := p.record b.log a } := by
    rw [runs.run, hs]
    rfl
  refine ⟨_, hrun, rfl, ?_, ?_, ?_⟩
  · simp only [Bus.pending, Bus.put, List.map_set]
  · exact (hput g).trans (if_pos rfl)
  · intro k em hk hem
    exact hi k em (((hput k).trans (if_neg hk)).symm.trans hem)

/-- When it goes on, `s` sees its entry after all that it has seen meanwhile. -/
theorem publish_held (hobs : Observes p s m seen entries) (hs : s ∈ b.subs)
    (hn : b.subs.Nodup) {todo : List A} {e : E}
    (hg : b.emitters[g]? = some ⟨todo, .recorded e⟩) (hm : m e = true) :
    ∃ sched b', runs.run (step p) b sched = some b' ∧
      seen b'.shared = seen b.shared ++ [e] := by
  refine ⟨_, _, run_publish todo e hg, ?_⟩
  exact (seen_foldl hobs hn e b.log b.shared).trans (if_pos ⟨hs, hm⟩)

/-- If an emitter can overtake another one, some run shows `s` the later entry first:
the first emitter is held up right after its record. -/
theorem exists_overtaking_run (hobs : Observes p s m seen entries) (hs : s ∈ start.subs)
    (hn : start.subs.Nodup) (hi : ∀ em ∈ start.emitters, em.phase = .idle)
    (h : Overtakes p start.pending m) :
    ∃ sched b order₁ g₁ order₂ g₂ e₁ e₂, runs.run (step p) start sched = some b ∧
      NextIs p start.pending order₁ g₁ e₁ ∧
      NextIs p start.pending (order₁ ++ g₁ :: order₂) g₂ e₂ ∧
      List.Sublist [e₂, e₁] (seen b.shared) := by
  obtain ⟨order₁, g₁, order₂, g₂, e₁, e₂, hne, hnot, hnext₁, hm₁, hnext₂, hm₂⟩ := h
  obtain ⟨l₁, t₁, a₁, r₁, hrun₁, ht₁, he₁⟩ := id hnext₁
  obtain ⟨l₂, t₂, a₂, r₂, hrun₂, ht₂, he₂⟩ := id hnext₂
  obtain ⟨sched₁, b₁, hsched₁, hpend₁, hpub₁⟩ := publish_order (fun _ => False) hobs hs hn
    (fun k em _ hem => hi em (List.mem_of_getElem? hem)) (fun _ _ hf => hf) hrun₁
  have hg₁ : b₁.emitters[g₁]? = some ⟨a₁ :: r₁, .idle⟩ :=
    found_of_pending (by rw [hpend₁]; exact ht₁) fun em => hpub₁.idle g₁ em fun hf => hf
  obtain ⟨b₂, hsched₂, hsame₂, hpend₂, hheld₂, hidle₂⟩ := record_and_hold (p := p)
    (fun k em => hpub₁.idle k em fun hf => hf) hg₁
  have hsubs₂ : b₂.subs = start.subs := hsame₂.trans hpub₁.subs
  have hlog₁ : b₁.log = l₁ := congrArg Prod.fst hpend₁
  have htodo₁ : b₁.pending.2 = t₁ := congrArg Prod.snd hpend₁
  have hr : runs.run (recordStep p) b₂.pending order₂ = some (l₂, t₂) := by
    rw [runs.run_append hrun₁, runs.run, recordStep, ht₁, Option.bind_some] at hrun₂
    rw [hpend₂, hlog₁, htodo₁, hrun₂]
  obtain ⟨sched₃, b₃, hsched₃, hpend₃, hpub₃⟩ := publish_order (· = g₁) hobs (b := b₂)
    (hsubs₂ ▸ hs) (hsubs₂ ▸ hn) hidle₂ (fun k hk heq => hnot (heq ▸ hk)) hr
  have hsubs₃ : b₃.subs = start.subs := hpub₃.subs.trans hsubs₂
  -- the second emitter publishes its entry to the end
  have hg₂ : b₃.emitters[g₂]? = some ⟨a₂ :: r₂, .idle⟩ :=
    found_of_pending (by rw [hpend₃]; exact ht₂) fun em => hpub₃.idle g₂ em (Ne.symm hne)
  have hlog₃ : b₃.log = l₂ := congrArg Prod.fst hpend₃
  obtain ⟨sched₄, b₄, hsched₄, -, hpub₄, hseen₄⟩ := publish_once hobs (hsubs₃ ▸ hs)
    (hsubs₃ ▸ hn) hpub₃.idle (Ne.symm hne) hg₂
  rw [hlog₃, ← he₂, if_pos hm₂] at hseen₄
  have hsubs₄ : b₄.subs = start.subs := hpub₄.subs.trans hsubs₃
  -- only now does the first emitter go on
  have hheld₄ : b₄.emitters[g₁]? = some ⟨r₁, .recorded e₁⟩ := by
    rw [hpub₄.held g₁ rfl, hpub₃.held g₁ rfl, hheld₂, he₁, hlog₁]
  obtain ⟨sched₅, b₅, hsched₅, hseen₅⟩ :=
    publish_held hobs (hsubs₄ ▸ hs) (hsubs₄ ▸ hn) hheld₄ hm₁
  refine ⟨sched₁ ++ ([g₁] ++ (sched₃ ++ (sched₄ ++ sched₅))), b₅, order₁, g₁, order₂, g₂, e₁, e₂,
    ?_, hnext₁, hnext₂, ?_⟩
  · rw [runs.run_append hsched₁, runs.run_append hsched₂, runs.run_append hsched₃,
      runs.run_append hsched₄]
    exact hsched₅
  · rw [hseen₅, hseen₄, List.append_assoc]
    exact List.sublist_append_right (seen b₃.shared) [e₂, e₁]

end order

end dispatch
