-- Programs that open windows around their parts. A window is closed on every
-- exit of its body; a window that does not open ends the program. The rule: a
-- place that no closed window holds is as it was, and any other is cleared.
import Mathlib.Data.List.Basic

namespace windows

/-- What a program does in one run: its steps, and the windows that it opens. -/
inductive Prog (α β : Type) where
  | skip
  | fail
  | act (a : α)
  | seq (p q : Prog α β)
  | window (b : β) (body : Prog α β)

/-- The steps, and how a window opens and closes; opening can be refused. -/
structure Semantics (σ α β : Type) where
  step : σ → α → σ
  enter : σ → β → Bool × σ
  leave : σ → β → σ

/-- How a program ends: normally or not, with the windows that it closed and the
one whose opening was refused. -/
structure Result (σ β : Type) where
  ok : Bool
  state : σ
  closed : List β
  refused : Option β

variable {σ α β κ γ : Type}

def run (sem : Semantics σ α β) : Prog α β → σ → Result σ β
  | .skip, s => ⟨true, s, [], none⟩
  | .fail, s => ⟨false, s, [], none⟩
  | .act a, s => ⟨true, sem.step s a, [], none⟩
  | .seq p q, s =>
    let r := run sem p s
    if r.ok then
      let r' := run sem q r.state
      ⟨r'.ok, r'.state, r.closed ++ r'.closed, r'.refused⟩
    else r
  | .window b body, s =>
    let opened := sem.enter s b
    if opened.1 then
      let r := run sem body opened.2
      ⟨r.ok, sem.leave r.state b, r.closed ++ [b], r.refused⟩
    else ⟨false, opened.2, [], some b⟩

variable {sem : Semantics σ α β}

theorem run_seq_ok {p : Prog α β} {s : σ} (h : (run sem p s).ok = true) (q : Prog α β) :
    run sem (.seq p q) s =
      ⟨(run sem q (run sem p s).state).ok, (run sem q (run sem p s).state).state,
        (run sem p s).closed ++ (run sem q (run sem p s).state).closed,
        (run sem q (run sem p s).state).refused⟩ := by
  rw [run, if_pos h]

theorem run_seq_failed {p : Prog α β} {s : σ} (h : ¬ (run sem p s).ok = true) (q : Prog α β) :
    run sem (.seq p q) s = run sem p s := by
  rw [run, if_neg h]

theorem run_window_refused {s : σ} {b : β} (h : ¬ (sem.enter s b).1 = true) (body : Prog α β) :
    run sem (.window b body) s = ⟨false, (sem.enter s b).2, [], some b⟩ := by
  rw [run, if_neg h]

theorem run_window_opened {s : σ} {b : β} (h : (sem.enter s b).1 = true) (body : Prog α β) :
    run sem (.window b body) s =
      ⟨(run sem body (sem.enter s b).2).ok, sem.leave (run sem body (sem.enter s b).2).state b,
        (run sem body (sem.enter s b).2).closed ++ [b],
        (run sem body (sem.enter s b).2).refused⟩ := by
  rw [run, if_pos h]

theorem refused_of_ok {p : Prog α β} {s : σ} (h : (run sem p s).ok = true) :
    (run sem p s).refused = none := by
  induction p generalizing s with
  | skip => rfl
  | fail => cases h
  | act a => rfl
  | seq p q ihp ihq =>
    by_cases hp : (run sem p s).ok = true
    · rw [run_seq_ok hp] at h ⊢
      exact ihq h
    · rw [run_seq_failed hp] at h
      exact absurd h hp
  | window b body ih =>
    by_cases ho : (sem.enter s b).1 = true
    · rw [run_window_opened ho] at h ⊢
      exact ih h
    · rw [run_window_refused ho] at h
      cases h

/-- What steps, windows and refusals do to the places of a state. A window
touches its own keys and clears them when it closes; a refusal touches the keys
that it tears; all else stays related. -/
structure Framed (sem : Semantics σ α β) (view : σ → κ → γ) (R : γ → γ → Prop)
    (cleared : γ → Prop) (keys torn : β → List κ) : Prop where
  refl : ∀ x, R x x
  trans : ∀ x y z, R x y → R y z → R x z
  stays : ∀ x y, cleared x → R x y → cleared y
  step : ∀ s a k, R (view s k) (view (sem.step s a) k)
  enter : ∀ s b k, (sem.enter s b).1 = true → k ∉ keys b → R (view s k) (view (sem.enter s b).2 k)
  refuse : ∀ s b k, (sem.enter s b).1 = false → k ∉ torn b → R (view s k) (view (sem.enter s b).2 k)
  leave : ∀ s b k, k ∉ keys b → R (view s k) (view (sem.leave s b) k)
  clears : ∀ s b k, k ∈ keys b → cleared (view (sem.leave s b) k)

/-- A window that restores: what it touches reads as `zero` once it has closed. -/
theorem Framed.of_restores [DecidableEq κ] {view : σ → κ → γ} {zero : γ} {keys : β → List κ}
    (hstep : ∀ s a k, view s k = view (sem.step s a) k)
    (henter : ∀ s b k, k ∉ keys b → view s k = view (sem.enter s b).2 k)
    (hleave : ∀ s b k, view (sem.leave s b) k = if k ∈ keys b then zero else view s k) :
    Framed sem view Eq (· = zero) keys keys where
  refl _ := rfl
  trans _ _ _ h h' := h.trans h'
  stays _ _ hx h := h.symm.trans hx
  step := hstep
  enter s b k _ := henter s b k
  refuse s b k _ := henter s b k
  leave s b k hk := by rw [hleave, if_neg hk]
  clears s b k hk := by rw [hleave, if_pos hk]

/-- The frame rule. -/
theorem Framed.run {view : σ → κ → γ} {R : γ → γ → Prop} {cleared : γ → Prop}
    {keys torn : β → List κ} (h : Framed sem view R cleared keys torn) (p : Prog α β) (s : σ)
    (k : κ) (hk : ∀ b, (run sem p s).refused = some b → k ∉ torn b) :
    ((∃ b ∈ (run sem p s).closed, k ∈ keys b) → cleared (view (run sem p s).state k)) ∧
      ((∀ b ∈ (run sem p s).closed, k ∉ keys b) →
        R (view s k) (view (run sem p s).state k)) := by
  induction p generalizing s with
  | skip | fail =>
    refine ⟨?_, fun _ => h.refl _⟩
    rintro ⟨b, hb, -⟩
    cases hb
  | act a =>
    refine ⟨?_, fun _ => h.step s a k⟩
    rintro ⟨b, hb, -⟩
    cases hb
  | seq p q ihp ihq =>
    by_cases hp : (windows.run sem p s).ok = true
    · have hn := refused_of_ok hp
      have hf := ihp s (by rw [hn]; intro b hb; cases hb)
      rw [run_seq_ok hp] at hk ⊢
      have hs := ihq _ hk
      constructor
      · rintro ⟨b, hb, hkey⟩
        by_cases hl : ∃ b ∈ (windows.run sem q (windows.run sem p s).state).closed, k ∈ keys b
        · exact hs.1 hl
        · have he : b ∈ (windows.run sem p s).closed := by
            rcases List.mem_append.mp hb with hb | hb
            · exact hb
            · exact absurd ⟨b, hb, hkey⟩ hl
          exact h.stays _ _ (hf.1 ⟨b, he, hkey⟩)
            (hs.2 fun b hb hkey => hl ⟨b, hb, hkey⟩)
      · intro hn
        exact h.trans _ _ _ (hf.2 fun b hb => hn b (List.mem_append_left _ hb))
          (hs.2 fun b hb => hn b (List.mem_append_right _ hb))
    · rw [run_seq_failed hp] at hk ⊢
      exact ihp s hk
  | window b body ih =>
    by_cases ho : (sem.enter s b).1 = true
    · rw [run_window_opened ho] at hk ⊢
      have hbo := ih (sem.enter s b).2 hk
      by_cases hkey : k ∈ keys b
      · refine ⟨fun _ => h.clears _ b k hkey, fun hn => ?_⟩
        exact absurd hkey (hn b (by simp))
      · constructor
        · rintro ⟨b', hb', hkey'⟩
          have hi : b' ∈ (windows.run sem body (sem.enter s b).2).closed := by
            rcases List.mem_append.mp hb' with hb' | hb'
            · exact hb'
            · rw [List.mem_singleton.mp hb'] at hkey'
              exact absurd hkey' hkey
          exact h.stays _ _ (hbo.1 ⟨b', hi, hkey'⟩) (h.leave _ b k hkey)
        · intro hn
          have hen := h.enter s b k ho hkey
          have hi := hbo.2 fun b' hb' => hn b' (List.mem_append_left _ hb')
          exact h.trans _ _ _ (h.trans _ _ _ hen hi) (h.leave _ b k hkey)
    · rw [run_window_refused ho] at hk ⊢
      refine ⟨?_, fun _ => h.refuse s b k (by simpa using ho) (hk b rfl)⟩
      rintro ⟨b', hb', -⟩
      cases hb'

end windows
