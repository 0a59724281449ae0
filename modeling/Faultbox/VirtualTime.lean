-- The virtual clock of a session: sleeps and injected delays advance it, and clock_gettime reads
-- it. The law: the time that is read never goes back, and after a sleep until some time it is
-- at least that time. The seconds and nanoseconds are not checked, so it holds exactly where
-- no sleep asks for a negative time and the clock stays below 2^63 nanoseconds.
import Faultbox.GoValues

open goval

namespace faultbox.virtual_time

/-! ## The clock -/

/-- What lies at the address that a call gives. -/
structure Timespec where
  sec : Int
  nsec : Int

def Timespec.ns (ts : Timespec) : Int := ts.sec * 10 ^ 9 + ts.nsec

/-- `readTimespec`: nothing can be read at the null pointer, for example. -/
def readTimespec : Option Timespec → Int
  | none => 0
  | some ts => wrap (wrap (ts.sec * 10 ^ 9) + ts.nsec)

/-- `VirtualClock.Advance`. -/
def advance (elapsed d : Int) : Int := wrap (elapsed + d)

/-- `VirtualClock.Timespec`. -/
def timespec (elapsed : Int) : Timespec := ⟨elapsed.tdiv (10 ^ 9), elapsed.tmod (10 ^ 9)⟩

/-- What advances the clock: nanosleep, clock_nanosleep with or without TIMER_ABSTIME, and the
delay of a fault rule. -/
inductive Sleep where
  | nanosleep (request : Option Timespec)
  | clockNanosleep (abstime : Bool) (request : Option Timespec)
  | delay (d : Int) (fits : Fits d)

def Sleep.handle (elapsed : Int) : Sleep → Int
  | .nanosleep request => advance elapsed (readTimespec request)
  | .clockNanosleep abstime request =>
    let dur := readTimespec request
    let dur :=
      if abstime then if dur > elapsed then wrap (dur - elapsed) else 0
      else dur
    advance elapsed dur
  | .delay d _ => advance elapsed d

inductive Call where
  | sleep (s : Sleep)
  | clockGettime

def returned (elapsed : Int) : List Call → List Timespec
  | [] => []
  | .sleep s :: rest => returned (s.handle elapsed) rest
  | .clockGettime :: rest => timespec elapsed :: returned elapsed rest

def sleeps : List Call → List Sleep
  | [] => []
  | .sleep s :: rest => s :: sleeps rest
  | .clockGettime :: rest => sleeps rest

def elapsedAfter (elapsed : Int) : List Call → Int
  | [] => elapsed
  | .sleep s :: rest => elapsedAfter (s.handle elapsed) rest
  | .clockGettime :: rest => elapsedAfter elapsed rest

/-! ## The property -/

def Sleep.until : Sleep → Option Int
  | .clockNanosleep true (some ts) => some ts.ns
  | _ => none

/-- Wherever clock_gettime is called between the sleeps, the times that it returns do not go
back, and behind a sleep until some time it returns at least that time. -/
def NeverBack (elapsed : Int) (w : List Sleep) : Prop :=
  ∀ calls, sleeps calls = w →
    (returned elapsed calls).Pairwise (fun a b => a.ns ≤ b.ns) ∧
    ∀ before s behind t, calls = before ++ .sleep s :: .clockGettime :: behind → s.until = some t →
      t ≤ (timespec (elapsedAfter elapsed (before ++ [.sleep s]))).ns

/-! ## The condition -/

/-- The clock without an end: relative sleeps and delays are added, an absolute one is the later
of the two times. -/
def Sleep.after (e : Int) : Sleep → Int
  | .nanosleep request => e + readTimespec request
  | .clockNanosleep true request => max e (readTimespec request)
  | .clockNanosleep false request => e + readTimespec request
  | .delay d _ => e + d

def horizon (e : Int) (w : List Sleep) : Int := w.foldl Sleep.after e

/-- A relative sleep is not negative as a 64-bit duration, an absolute one is until a time that
the clock can show. -/
def Sleep.Forward : Sleep → Prop
  | .nanosleep request => 0 ≤ readTimespec request
  | .clockNanosleep true request => ∀ ts, request = some ts → ts.ns < 2 ^ 63
  | .clockNanosleep false request => 0 ≤ readTimespec request
  | .delay d _ => 0 ≤ d

/-! ## One sleep -/

theorem timespec_ns (e : Int) : (timespec e).ns = e := by
  unfold Timespec.ns timespec
  rw [Int.mul_comm]
  exact Int.mul_tdiv_add_tmod e (10 ^ 9)

theorem readTimespec_eq (ts : Timespec) : readTimespec (some ts) = wrap ts.ns :=
  wrap_add_wrap _ _

theorem readTimespec_fits (request : Option Timespec) : Fits (readTimespec request) := by
  cases request with
  | none => exact ⟨by decide, by decide⟩
  | some ts => exact fits_wrap _

section one

variable {e : Int}

theorem le_advance_iff (he : 0 ≤ e) (hfit : e < 2 ^ 63) {d : Int} (hd : Fits d) :
    e ≤ advance e d ↔ 0 ≤ d ∧ e + d < 2 ^ 63 := by
  obtain ⟨hlow, hh⟩ := hd
  unfold advance
  constructor
  · intro hle
    rcases lt_or_ge (e + d) (2 ^ 63) with hlt | ho
    · rw [wrap_of_fits ⟨by omega, hlt⟩] at hle
      exact ⟨by omega, hlt⟩
    · rw [wrap_of_over ho (by omega)] at hle
      omega
  · rintro ⟨hpos, hlt⟩
    rw [wrap_of_fits ⟨by omega, hlt⟩]
    omega

theorem advance_eq (he : 0 ≤ e) {d : Int} (hpos : 0 ≤ d) (hlt : e + d < 2 ^ 63) :
    advance e d = e + d := wrap_of_fits ⟨by omega, hlt⟩

theorem handle_absolute (he : 0 ≤ e) (hfit : e < 2 ^ 63) (request : Option Timespec) :
    (Sleep.clockNanosleep true request).handle e = max e (readTimespec request) := by
  obtain ⟨hlow, hh⟩ := readTimespec_fits request
  simp only [Sleep.handle, if_true]
  split
  · rename_i hl
    have hd : wrap (readTimespec request - e) = readTimespec request - e :=
      wrap_of_fits ⟨by omega, by omega⟩
    rw [hd, advance_eq he (by omega) (by omega)]
    omega
  · rw [advance_eq he (Int.le_refl 0) (by omega)]
    omega

theorem until_le_iff (he : 0 ≤ e) (hfit : e < 2 ^ 63) (ts : Timespec) :
    ts.ns ≤ max e (readTimespec (some ts)) ↔ ts.ns < 2 ^ 63 := by
  have hf := fits_wrap ts.ns
  rw [readTimespec_eq]
  constructor
  · intro hle
    have hmax : max e (wrap ts.ns) < 2 ^ 63 := max_lt hfit hf.2
    omega
  · intro hlt
    rcases lt_or_ge ts.ns (-2 ^ 63) with hlow | hh
    · exact le_max_of_le_left (by omega)
    · rw [wrap_of_fits ⟨hh, hlt⟩]
      exact le_max_right _ _

/-- One sleep from a clock in range: it goes forward, and far enough, exactly where it asks for
a forward sleep that ends in range. -/
theorem handle_forward_iff (he : 0 ≤ e) (hfit : e < 2 ^ 63) (s : Sleep) :
    (e ≤ s.handle e ∧ ∀ t, s.until = some t → t ≤ s.handle e) ↔
      s.Forward ∧ s.after e < 2 ^ 63 := by
  cases s with
  | nanosleep request =>
    simp only [Sleep.handle, Sleep.until, Sleep.Forward, Sleep.after]
    rw [le_advance_iff he hfit (readTimespec_fits request)]
    simp
  | delay d fits =>
    simp only [Sleep.handle, Sleep.until, Sleep.Forward, Sleep.after]
    rw [le_advance_iff he hfit fits]
    simp
  | clockNanosleep abstime request =>
    cases abstime with
    | false =>
      simp only [Sleep.handle, Sleep.until, Sleep.Forward, Sleep.after, Bool.false_eq_true,
        if_false]
      rw [le_advance_iff he hfit (readTimespec_fits request)]
      simp
    | true =>
      have hf := readTimespec_fits request
      have hend : max e (readTimespec request) < 2 ^ 63 := max_lt hfit hf.2
      rw [handle_absolute he hfit request]
      simp only [Sleep.Forward, Sleep.after]
      cases request with
      | none =>
        simp only [Sleep.until, reduceCtorEq, false_imp_iff, implies_true, le_max_left, and_self,
          hend]
      | some ts =>
        have hiff := until_le_iff he hfit ts
        simp only [Sleep.until, Option.some.injEq, forall_eq', le_max_left, true_and, hend,
          and_true, hiff]

theorem handle_eq (he : 0 ≤ e) (hfit : e < 2 ^ 63) (s : Sleep) (hs : s.Forward)
    (hlt : s.after e < 2 ^ 63) : s.handle e = s.after e := by
  cases s with
  | nanosleep request => exact advance_eq he hs hlt
  | delay d fits => exact advance_eq he hs hlt
  | clockNanosleep abstime request =>
    cases abstime with
    | false => exact advance_eq he hs hlt
    | true => exact handle_absolute he hfit request

theorem le_after (s : Sleep) (hs : s.Forward) : e ≤ s.after e := by
  cases s with
  | nanosleep request => exact Int.le_add_of_nonneg_right hs
  | delay d fits => exact Int.le_add_of_nonneg_right hs
  | clockNanosleep abstime request =>
    cases abstime with
    | false => exact Int.le_add_of_nonneg_right hs
    | true => exact le_max_left _ _

end one

theorem le_horizon {w : List Sleep} (hw : ∀ s ∈ w, s.Forward) (e : Int) : e ≤ horizon e w := by
  induction w generalizing e with
  | nil => exact Int.le_refl e
  | cons s w ih =>
    have hf := le_after (e := e) s (hw s List.mem_cons_self)
    have hr := ih (fun x hx => hw x (List.mem_cons_of_mem _ hx)) (s.after e)
    exact Int.le_trans hf hr

/-! ## Every sequence -/

/-- The sleeps go forward, and the last of them ends in range. -/
def InRange (e : Int) (w : List Sleep) : Prop := (∀ s ∈ w, s.Forward) ∧ horizon e w < 2 ^ 63

theorem inRange_cons {e : Int} (s : Sleep) (w : List Sleep) :
    InRange e (s :: w) ↔ s.Forward ∧ InRange (s.after e) w := by
  unfold InRange
  rw [List.forall_mem_cons, and_assoc]
  rfl

/-- In range, clock_gettime returns nothing below the clock, nothing goes back, and a sleep until
some time ends there or later. -/
theorem returned_of_inRange {e : Int} (he : 0 ≤ e) (hfit : e < 2 ^ 63) (calls : List Call)
    (hw : InRange e (sleeps calls)) :
    (∀ ts ∈ returned e calls, e ≤ ts.ns) ∧
    (returned e calls).Pairwise (fun a b => a.ns ≤ b.ns) ∧
    ∀ before s behind t, calls = before ++ .sleep s :: .clockGettime :: behind → s.until = some t →
      t ≤ (timespec (elapsedAfter e (before ++ [.sleep s]))).ns := by
  induction calls generalizing e with
  | nil =>
    refine ⟨fun _ hmem => absurd hmem List.not_mem_nil, .nil, ?_⟩
    intro before s behind t hc
    simp at hc
  | cons c calls ih =>
    cases c with
    | sleep s =>
      obtain ⟨hs, hr⟩ := (inRange_cons s (sleeps calls)).mp hw
      have hlt : s.after e < 2 ^ 63 := Int.lt_of_le_of_lt (le_horizon hr.1 _) hr.2
      have hle : e ≤ s.after e := le_after s hs
      have hh := handle_eq he hfit s hs hlt
      have hf := (handle_forward_iff he hfit s).mpr ⟨hs, hlt⟩
      obtain ⟨hlow, hp, hu⟩ := ih (Int.le_trans he hle) hlt hr
      rw [← hh] at hlow hp hu
      refine ⟨fun ts hmem => Int.le_trans hf.1 (hlow ts hmem), hp, ?_⟩
      intro before s' behind t hc ht
      cases before with
      | nil =>
        obtain ⟨hs', -⟩ := List.cons.inj hc
        cases hs'
        rw [timespec_ns]
        exact hf.2 t ht
      | cons c before =>
        obtain ⟨rfl, hr'⟩ := List.cons.inj hc
        exact hu before s' behind t hr' ht
    | clockGettime =>
      obtain ⟨hlow, hp, hu⟩ := ih he hfit hw
      refine ⟨?_, ?_, ?_⟩
      · intro ts hmem
        rcases List.mem_cons.mp hmem with rfl | hmem
        · exact Int.le_of_eq (timespec_ns e).symm
        · exact hlow ts hmem
      · rw [returned, List.pairwise_cons]
        refine ⟨?_, hp⟩
        intro ts hmem
        rw [timespec_ns]
        exact hlow ts hmem
      · intro before s' behind t hc ht
        cases before with
        | nil => cases hc
        | cons c before =>
          obtain ⟨rfl, hr⟩ := List.cons.inj hc
          exact hu before s' behind t hr ht

theorem sleeps_map (w : List Sleep) : sleeps (w.map .sleep) = w := by
  induction w with
  | nil => rfl
  | cons s w ih => rw [List.map_cons, sleeps, ih]

theorem NeverBack.step {e : Int} {s : Sleep} {w : List Sleep} (h : NeverBack e (s :: w)) :
    (e ≤ s.handle e ∧ ∀ t, s.until = some t → t ≤ s.handle e) ∧ NeverBack (s.handle e) w := by
  refine ⟨?_, ?_⟩
  · obtain ⟨hp, hu⟩ := h (.clockGettime :: .sleep s :: .clockGettime :: w.map .sleep) (by
      simp only [sleeps, sleeps_map])
    constructor
    · have hf := (List.pairwise_cons.mp hp).1 (timespec (s.handle e)) List.mem_cons_self
      rwa [timespec_ns, timespec_ns] at hf
    · intro t ht
      have hl := hu [.clockGettime] s (w.map .sleep) t rfl ht
      rwa [timespec_ns] at hl
  · intro calls hc
    obtain ⟨hp, hu⟩ := h (.sleep s :: calls) (by rw [sleeps, hc])
    refine ⟨hp, ?_⟩
    intro before s' behind t hs ht
    exact hu (.sleep s :: before) s' behind t (by rw [hs]; rfl) ht

theorem inRange_of_neverBack {e : Int} (he : 0 ≤ e) (hfit : e < 2 ^ 63) {w : List Sleep}
    (h : NeverBack e w) : InRange e w := by
  induction w generalizing e with
  | nil => exact ⟨fun _ hmem => absurd hmem List.not_mem_nil, hfit⟩
  | cons s w ih =>
    obtain ⟨hst, hr⟩ := h.step
    obtain ⟨hs, hlt⟩ := (handle_forward_iff he hfit s).mp hst
    rw [handle_eq he hfit s hs hlt] at hr
    exact (inRange_cons s w).mpr
      ⟨hs, ih (Int.le_trans he (le_after s hs)) hlt hr⟩

/-- The virtual time never runs backwards, exactly where every sleep goes forward and the clock
stays in range. -/
theorem neverBack_iff (w : List Sleep) :
    NeverBack 0 w ↔ (∀ s ∈ w, s.Forward) ∧ horizon 0 w < 2 ^ 63 := by
  constructor
  · exact inRange_of_neverBack (Int.le_refl 0) (by decide)
  · intro hw calls hc
    exact (returned_of_inRange (Int.le_refl 0) (by decide) calls (hc ▸ hw)).2

/-- A process that sleeps for minus one second sees the clock go back. -/
theorem negative_sleep_goes_back : ¬NeverBack 0 [.nanosleep (some ⟨-1, 0⟩)] := by
  intro h
  have hp := (h [.clockGettime, .sleep (.nanosleep (some ⟨-1, 0⟩)), .clockGettime] rfl).1
  revert hp
  decide

end faultbox.virtual_time
