-- Machines that take one step after another: the run of a partial step
-- function, the answers of a machine that always answers, the loop that ends at
-- the first error, the loop that only adds, and the rules that carry an invariant
-- or a simulation from one step to a whole run.
import Mathlib.Data.List.Basic

namespace runs

variable {σ τ α β : Type}

/-! ## A machine whose steps can be refused -/

/-- The state after the steps of the list, or `none` when one of them is refused. -/
def run (step : σ → α → Option σ) : σ → List α → Option σ
  | s, [] => some s
  | s, a :: as => (step s a).bind fun t => run step t as

theorem of_guard {p : Prop} [Decidable p] {s t : σ} (h : (if p then some s else none) = some t) :
    p ∧ s = t := by
  rwa [Option.ite_none_right_eq_some, Option.some.injEq] at h

theorem of_guard_map {p : Prop} [Decidable p] {o : Option τ} {f : τ → σ} {t : σ}
    (h : (if p then o.map f else none) = some t) : p ∧ ∃ x, o = some x ∧ f x = t := by
  rwa [Option.ite_none_right_eq_some, Option.map_eq_some_iff] at h

theorem run_preserves {step : σ → α → Option σ} (Inv : σ → Prop)
    (hs : ∀ s a t, step s a = some t → Inv s → Inv t) {as : List α} {s t : σ}
    (hrun : run step s as = some t) (h : Inv s) : Inv t := by
  induction as generalizing s with
  | nil =>
    cases hrun
    exact h
  | cons a as ih =>
    obtain ⟨u, hu, hr⟩ := Option.bind_eq_some_iff.mp hrun
    exact ih hr (hs s a u hu h)

theorem run_append {step : σ → α → Option σ} {s t : σ} {as : List α} (h : run step s as = some t)
    (bs : List α) : run step s (as ++ bs) = run step t bs := by
  induction as generalizing s with
  | nil =>
    cases h
    rfl
  | cons a as ih =>
    obtain ⟨u, hu, hr⟩ := Option.bind_eq_some_iff.mp h
    rw [List.cons_append, run, hu, Option.bind_some, ih hr]

/-- Some steps lead from one state to the other. -/
def Leads (step : σ → α → Option σ) (s t : σ) : Prop := ∃ as, run step s as = some t

section leads

variable {step : σ → α → Option σ} {s t u : σ}

theorem Leads.refl (s : σ) : Leads step s s := ⟨[], rfl⟩

theorem Leads.trans (h : Leads step s t) (h' : Leads step t u) : Leads step s u := by
  obtain ⟨as, hrun⟩ := h
  obtain ⟨bs, hrun'⟩ := h'
  exact ⟨as ++ bs, (run_append hrun bs).trans hrun'⟩

theorem Leads.single {a : α} (h : step s a = some t) : Leads step s t :=
  ⟨[a], by rw [run, h, Option.bind_some, run]⟩

theorem Leads.row (f : Nat → σ) {a : α} {k : Nat} (h : ∀ i < k, step (f i) a = some (f (i + 1))) :
    Leads step (f 0) (f k) := by
  induction k with
  | zero => exact .refl _
  | succ k ih =>
    exact .trans (ih fun i hi => h i (Nat.lt_succ_of_lt hi)) (.single (h k (Nat.lt_succ_self k)))

theorem Leads.preserves (Inv : σ → Prop) (hst : ∀ s a t, step s a = some t → Inv s → Inv t)
    (h : Leads step s t) (hs : Inv s) : Inv t := by
  obtain ⟨as, hrun⟩ := h
  exact run_preserves Inv hst hrun hs

end leads

section measure

variable {step : σ → α → Option σ} {Inv : σ → Prop} (weight : σ → Nat)
  (hinv : ∀ s a t, step s a = some t → Inv s → Inv t)

include hinv

theorem length_le_weight (P : α → Prop)
    (hlt : ∀ s a t, Inv s → P a → step s a = some t → weight t < weight s)
    {as : List α} {s t : σ} (h : Inv s) (hall : ∀ a ∈ as, P a) (hrun : run step s as = some t) :
    as.length ≤ weight s := by
  induction as generalizing s with
  | nil => exact Nat.zero_le _
  | cons a as ih =>
    obtain ⟨u, hu, hr⟩ := Option.bind_eq_some_iff.mp hrun
    have hd := hlt s a u h (hall a List.mem_cons_self) hu
    have hlen := ih (hinv s a u hu h) (fun b hb => hall b (List.mem_cons_of_mem a hb)) hr
    rw [List.length_cons]
    omega

theorem exists_stuck (P : α → Prop)
    (hlt : ∀ s a t, Inv s → P a → step s a = some t → weight t < weight s) {s : σ} (h : Inv s) :
    ∃ as t, (∀ a ∈ as, P a) ∧ run step s as = some t ∧ ∀ a, P a → step t a = none := by
  induction hw : weight s using Nat.strongRecOn generalizing s with
  | ind w ih =>
    by_cases hs : ∀ a, P a → step s a = none
    · exact ⟨[], s, fun _ hmem => absurd hmem List.not_mem_nil, rfl, hs⟩
    · push Not at hs
      obtain ⟨a, hP, hne⟩ := hs
      obtain ⟨u, hu⟩ := Option.ne_none_iff_exists'.mp hne
      obtain ⟨as, t, hall, hrun, hend⟩ :=
        ih (weight u) (hw ▸ hlt s a u h hP hu) (hinv s a u hu h) rfl
      refine ⟨a :: as, t, ?_, ?_, hend⟩
      · intro b hb
        rcases List.mem_cons.mp hb with rfl | hb
        · exact hP
        · exact hall b hb
      · rw [run, hu, Option.bind_some]
        exact hrun

end measure

/-! ## A machine that answers every call -/

def after (act : σ → α → β × σ) : σ → List α → σ
  | s, [] => s
  | s, a :: as => after act (act s a).2 as

def trace (act : σ → α → β × σ) : σ → List α → List (σ × α × β)
  | _, [] => []
  | s, a :: as => (s, a, (act s a).1) :: trace act (act s a).2 as

def answers (act : σ → α → β × σ) (s : σ) (as : List α) : List β :=
  (trace act s as).map fun o => o.2.2

variable {act : σ → α → β × σ}

theorem after_append (s : σ) (as bs : List α) :
    after act s (as ++ bs) = after act (after act s as) bs := by
  induction as generalizing s with
  | nil => rfl
  | cons a as ih => exact ih _

theorem trace_append (s : σ) (as bs : List α) :
    trace act s (as ++ bs) = trace act s as ++ trace act (after act s as) bs := by
  induction as generalizing s with
  | nil => rfl
  | cons a as ih => simp only [List.cons_append, trace, after, ih]

theorem answer_of_mem_trace {s : σ} {as : List α} {o : σ × α × β} (h : o ∈ trace act s as) :
    (act o.1 o.2.1).1 = o.2.2 := by
  induction as generalizing s with
  | nil => cases h
  | cons a as ih =>
    rcases List.mem_cons.mp h with rfl | h
    · rfl
    · exact ih h

theorem trace_split {s : σ} {as : List α} {pre post : List (σ × α × β)} {o : σ × α × β}
    (h : trace act s as = pre ++ o :: post) :
    ∃ before, pre = trace act s before ∧ o.1 = after act s before := by
  induction pre generalizing s as with
  | nil =>
    cases as with
    | nil => cases h
    | cons a as =>
      obtain ⟨rfl, -⟩ := List.cons.inj h
      exact ⟨[], rfl, rfl⟩
  | cons p pre ih =>
    cases as with
    | nil => cases h
    | cons a as =>
      obtain ⟨rfl, hr⟩ := List.cons.inj h
      obtain ⟨before, hpre, ho⟩ := ih hr
      refine ⟨a :: before, ?_, ho⟩
      rw [hpre]
      rfl

theorem after_preserves (Inv : σ → Prop) {as : List α}
    (hact : ∀ s, ∀ a ∈ as, Inv s → Inv (act s a).2) {s : σ} (h : Inv s) :
    Inv (after act s as) := by
  induction as generalizing s with
  | nil => exact h
  | cons a as ih =>
    apply ih
    · intro s b hb
      exact hact s b (List.mem_cons_of_mem _ hb)
    · exact hact s a List.mem_cons_self h

theorem after_of_mem_trace {P : σ → Prop} (hact : ∀ s a, P s → P (act s a).2)
    {s : σ} {as : List α} {o : σ × α × β} (ho : o ∈ trace act s as)
    (h : P (act o.1 o.2.1).2) : P (after act s as) := by
  induction as generalizing s with
  | nil => cases ho
  | cons a as ih =>
    rcases List.mem_cons.mp ho with rfl | ho
    · have hr : P (after act (act s a).2 as) :=
        after_preserves P (fun s a _ hs => hact s a hs) h
      exact hr
    · exact ih ho

theorem after_related {R : σ → σ → Prop} (hact : ∀ s t a, R s t → R (act s a).2 (act t a).2)
    {s t : σ} (h : R s t) (as : List α) : R (after act s as) (after act t as) := by
  induction as generalizing s t with
  | nil => exact h
  | cons a as ih => exact ih (hact s t a h)

theorem answers_eq_of_simulation {R : σ → σ → Prop}
    (hact : ∀ s t a, R s t → (act s a).1 = (act t a).1 ∧ R (act s a).2 (act t a).2)
    {s t : σ} (h : R s t) (as : List α) : answers act s as = answers act t as := by
  induction as generalizing s t with
  | nil => rfl
  | cons a as ih =>
    obtain ⟨h1, h2⟩ := hact s t a h
    have hr := ih h2
    simp only [answers, trace, List.map_cons] at hr ⊢
    rw [h1, hr]

/-! ## A loop that ends at the first error -/

/-- The error that ended the loop, if there was one, and the last state. -/
def untilError (act : σ → α → Option β × σ) : σ → List α → Option β × σ
  | s, [] => (none, s)
  | s, a :: as =>
    match act s a with
    | (none, t) => untilError act t as
    | (some err, t) => (some err, t)

section

variable {attempt : σ → α → Option β × σ}

theorem untilError_cons_ok {s : σ} {a : α} (h : (attempt s a).1 = none) (as : List α) :
    untilError attempt s (a :: as) = untilError attempt (attempt s a).2 as := by
  rw [untilError]
  split
  · rename_i heq
    rw [heq]
  · rename_i heq
    rw [heq] at h
    cases h

theorem untilError_cons_error {s : σ} {a : α} (h : (attempt s a).1 ≠ none) (as : List α) :
    untilError attempt s (a :: as) = attempt s a := by
  rw [untilError]
  split
  · rename_i heq
    rw [heq] at h
    exact absurd rfl h
  · rename_i heq
    rw [heq]

theorem untilError_ok {s : σ} {as : List α} (h : (untilError attempt s as).1 = none) :
    (untilError attempt s as).2 = after attempt s as := by
  induction as generalizing s with
  | nil => rfl
  | cons a as ih =>
    by_cases ha : (attempt s a).1 = none
    · rw [untilError_cons_ok ha] at h ⊢
      exact ih h
    · rw [untilError_cons_error ha] at h
      exact absurd h ha

theorem untilError_append {s : σ} {as : List α} (h : (untilError attempt s as).1 = none)
    (bs : List α) :
    untilError attempt s (as ++ bs) = untilError attempt (after attempt s as) bs := by
  induction as generalizing s with
  | nil => rfl
  | cons a as ih =>
    by_cases ha : (attempt s a).1 = none
    · rw [untilError_cons_ok ha] at h
      rw [List.cons_append, untilError_cons_ok ha]
      exact ih h
    · rw [untilError_cons_error ha] at h
      exact absurd h ha

theorem untilError_ok_of_append {s : σ} {as bs : List α}
    (h : (untilError attempt s (as ++ bs)).1 = none) : (untilError attempt s as).1 = none := by
  induction as generalizing s with
  | nil => rfl
  | cons a as ih =>
    rw [List.cons_append] at h
    by_cases ha : (attempt s a).1 = none
    · rw [untilError_cons_ok ha] at h ⊢
      exact ih h
    · rw [untilError_cons_error ha] at h
      exact absurd h ha

theorem attempt_ok {s : σ} {as bs : List α} {a : α}
    (h : (untilError attempt s (as ++ a :: bs)).1 = none) :
    (attempt (after attempt s as) a).1 = none := by
  rw [untilError_append (untilError_ok_of_append h)] at h
  by_contra ha
  rw [untilError_cons_error ha] at h
  exact ha h

end

end runs
