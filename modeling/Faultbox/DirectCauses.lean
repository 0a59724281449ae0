-- The query event.directly_caused_by(matcher) of the trace (internal/star/trace.go). The law:
-- it asks for an immediate cause, one with no other event between. The walk takes any cause
-- that was recorded earlier, so the law holds for all matchers exactly where no cause lies
-- between another one and the event, and where the events without a service, which come
-- before everything, neither miss nor add a cause.
import Faultbox.Causality

open goval faultbox.event_log faultbox.causality

namespace faultbox.direct_causes

/-! ## The query -/

/-- The loop of `directlyCausedBy`, over the events from the last one back. -/
def walkBack (e : Event) (m : Event → Bool) : List Event → Bool
  | [] => false
  | ev :: rest =>
    if ev.seq ≥ e.seq then walkBack e m rest
    else if happensBefore ev e && m ev then true
    else walkBack e m rest

/-- `EventVal.directlyCausedBy`; a matcher is a predicate on events, and the event of a
predicate has no log. -/
def directlyCausedBy (log : Option EventLog) (e : Event) (m : Event → Bool) : Bool :=
  match log with
  | none => false
  | some log => walkBack e m log.events.reverse

theorem walkBack_iff (e : Event) (m : Event → Bool) (evs : List Event) :
    walkBack e m evs = true ↔
      ∃ c ∈ evs, c.seq < e.seq ∧ happensBefore c e = true ∧ m c = true := by
  induction evs with
  | nil => simp [walkBack]
  | cons ev rest ih =>
    rw [walkBack, List.exists_mem_cons_iff]
    split
    · rename_i hl
      rw [ih]
      constructor
      · exact .inr
      · rintro (⟨hlt, -⟩ | hr)
        · exact absurd hlt (not_lt.mpr hl)
        · exact hr
    · rename_i he
      split
      · rename_i hhit
        rw [Bool.and_eq_true] at hhit
        exact ⟨fun _ => .inl ⟨not_le.mp he, hhit⟩, fun _ => rfl⟩
      · rename_i hm
        rw [ih]
        constructor
        · exact .inr
        · rintro (⟨-, hhit⟩ | hr)
          · exact absurd (Bool.and_eq_true _ _ ▸ hhit) hm
          · exact hr

/-! ## Immediate causes -/

section causes

variable (ops : List Op)

/-- No event of the log lies between the two. -/
def Immediate (c e : Event) : Prop :=
  ¬∃ d ∈ (logAfter ops).events, happensBefore c d = true ∧ happensBefore d e = true

/-- The query means an immediate cause. -/
def MeansImmediate (e : Event) : Prop :=
  ∀ m, directlyCausedBy (some (logAfter ops)) e m = true ↔
    ∃ c ∈ (logAfter ops).events, m c = true ∧ happensBefore c e = true ∧ Immediate ops c e

/-- The event has a cause that belongs to a service. -/
def HasNamedCause (e : Event) : Prop :=
  ∃ d ∈ (logAfter ops).events, d.service ≠ "" ∧ happensBefore d e = true

/-- No cause lies between another one and the event, and an event without a service was recorded
before the event exactly where there is no cause with one. -/
structure Flat (e : Event) : Prop where
  chains : ∀ c ∈ (logAfter ops).events, ∀ d ∈ (logAfter ops).events, c.service ≠ "" →
    ¬(happensBefore c d = true ∧ happensBefore d e = true)
  bare : ∀ c ∈ (logAfter ops).events, c.service = "" → (c.seq < e.seq ↔ ¬HasNamedCause ops e)

end causes

section law

variable {ops : List Op} {c d e : Event}

theorem eq_of_seq (hc : c ∈ (logAfter ops).events) (he : e ∈ (logAfter ops).events)
    (hseq : c.seq = e.seq) : c = e := by
  obtain ⟨i, hi⟩ := mem_events_iff.mp hc
  obtain ⟨j, hj⟩ := mem_events_iff.mp he
  have hij : ¬i < j := fun h => absurd ((seq_lt_iff hi hj).mpr h) (by omega)
  have hji : ¬j < i := fun h => absurd ((seq_lt_iff hj hi).mpr h) (by omega)
  obtain rfl : i = j := by omega
  exact Option.some.inj (hi.symm.trans hj)

theorem happensBefore_trans (hc : c ∈ (logAfter ops).events) (hd : d ∈ (logAfter ops).events)
    (hcd : happensBefore c d = true) (hde : happensBefore d e = true) :
    happensBefore c e = true := by
  obtain ⟨i, hi⟩ := mem_events_iff.mp hc
  obtain ⟨j, hj⟩ := mem_events_iff.mp hd
  obtain ⟨hle, name, hlt⟩ := (vcHappensBefore_iff (recorded_nonNeg hi)).mp hcd
  obtain ⟨hle', -⟩ := (vcHappensBefore_iff (recorded_nonNeg hj)).mp hde
  apply (vcHappensBefore_iff (recorded_nonNeg hi)).mpr
  exact ⟨fun x => (hle x).trans (hle' x), name, lt_of_lt_of_le hlt (hle' name)⟩

theorem service_of_happensBefore (hc : c ∈ (logAfter ops).events)
    (he : e ∈ (logAfter ops).events) (h : happensBefore c e = true) : e.service ≠ "" := by
  obtain ⟨i, hi⟩ := mem_events_iff.mp hc
  obtain ⟨j, hj⟩ := mem_events_iff.mp he
  exact fun hs => not_happensBefore_bare hi hj hs h

theorem happensBefore_of_bare (hc : c ∈ (logAfter ops).events)
    (he : e ∈ (logAfter ops).events) (hs : c.service = "") (hse : e.service ≠ "") :
    happensBefore c e = true := by
  obtain ⟨i, hi⟩ := mem_events_iff.mp hc
  obtain ⟨j, hj⟩ := mem_events_iff.mp he
  exact bare_happensBefore hi hj hs hse

theorem immediate_bare_iff (hc : c ∈ (logAfter ops).events) (hs : c.service = "") :
    Immediate ops c e ↔ ¬HasNamedCause ops e := by
  unfold Immediate HasNamedCause
  rw [not_iff_not]
  constructor
  · rintro ⟨d, hd, hcd, hde⟩
    exact ⟨d, hd, service_of_happensBefore hc hd hcd, hde⟩
  · rintro ⟨d, hd, hsd, hde⟩
    exact ⟨d, hd, happensBefore_of_bare hc hd hs hsd, hde⟩

theorem meansImmediate_iff_causes (ops : List Op) (e : Event) :
    MeansImmediate ops e ↔ ∀ c ∈ (logAfter ops).events, happensBefore c e = true →
      (c.seq < e.seq ↔ Immediate ops c e) := by
  simp only [MeansImmediate, directlyCausedBy, walkBack_iff, List.mem_reverse]
  constructor
  · intro hall c hc hca
    -- a matcher that asks for the number of the event matches this event only
    have hone : ∀ x ∈ (logAfter ops).events, decide (x.seq = c.seq) = true → x = c := by
      intro x hx hseq
      exact eq_of_seq hx hc (of_decide_eq_true hseq)
    have hiff := hall fun x => decide (x.seq = c.seq)
    constructor
    · intro hlt
      obtain ⟨x, hx, hm, -, himm⟩ := hiff.mp ⟨c, hc, hlt, hca, by simp⟩
      rwa [hone x hx hm] at himm
    · intro himm
      obtain ⟨x, hx, hlt, -, hm⟩ := hiff.mpr ⟨c, hc, by simp, hca, himm⟩
      rwa [hone x hx hm] at hlt
  · intro hcau m
    constructor
    · rintro ⟨c, hc, hlt, hca, hm⟩
      exact ⟨c, hc, hm, hca, (hcau c hc hca).mp hlt⟩
    · rintro ⟨c, hc, hm, hca, himm⟩
      exact ⟨c, hc, (hcau c hc hca).mpr himm, hca, hm⟩

/-- The query means an immediate cause for every matcher, exactly where the event has no service or
its causes are flat. -/
theorem meansImmediate_iff (ops : List Op) (e : Event) (he : e ∈ (logAfter ops).events) :
    MeansImmediate ops e ↔ e.service = "" ∨ Flat ops e := by
  rw [meansImmediate_iff_causes]
  by_cases hse : e.service = ""
  · refine ⟨fun _ => .inl hse, fun _ c hc hca => ?_⟩
    exact absurd hse (service_of_happensBefore hc he hca)
  · rw [or_iff_right hse]
    constructor
    · intro hcau
      refine ⟨?_, ?_⟩
      · rintro c hc d hd hsc ⟨hcd, hde⟩
        have hce := happensBefore_trans hc hd hcd hde
        have hlt := ((clocks_characterise_causality ops c e hc he hsc hse).mp hce).1
        exact (hcau c hc hce).mp hlt ⟨d, hd, hcd, hde⟩
      · intro c hc hs
        rw [hcau c hc (happensBefore_of_bare hc he hs hse), immediate_bare_iff hc hs]
    · intro hf c hc hce
      by_cases hs : c.service = ""
      · rw [hf.bare c hc hs, immediate_bare_iff hc hs]
      · have hlt := ((clocks_characterise_causality ops c e hc he hs hse).mp hce).1
        refine iff_of_true hlt ?_
        rintro ⟨d, hd, hb⟩
        exact hf.chains c hc d hd hs hb

end law

/-! ## Three events in a row -/

def threeCalls : List Op := [.emit "a" "db" ∅, .emit "b" "db" ∅, .emit "c" "db" ∅]

def firstCall : Event := (logAfter []).newEvent "a" "db" ∅
def middleCall : Event := (logAfter (threeCalls.take 1)).newEvent "b" "db" ∅
def lastCall : Event := (logAfter (threeCalls.take 2)).newEvent "c" "db" ∅

/-- The first of three calls counts as a direct cause of the last. -/
theorem first_call_is_no_immediate_cause :
    lastCall ∈ (logAfter threeCalls).events ∧
      directlyCausedBy (some (logAfter threeCalls)) lastCall (fun ev => ev.type == "a") = true ∧
      ¬MeansImmediate threeCalls lastCall := by
  refine ⟨mem_events_iff.mpr ⟨2, rfl⟩, by decide, ?_⟩
  intro hm
  obtain ⟨c, hc, hma, -, himm⟩ :=
    (hm fun ev => ev.type == "a").mp (by decide)
  have hf : c = firstCall := by
    obtain ⟨i, hi⟩ := mem_events_iff.mp hc
    match i with
    | 0 => exact (Option.some.inj hi).symm
    | 1 =>
      rw [← Option.some.inj hi] at hma
      exact absurd hma (by decide)
    | 2 =>
      rw [← Option.some.inj hi] at hma
      exact absurd hma (by decide)
    | i + 3 => cases hi
  rw [hf] at himm
  exact himm ⟨middleCall, mem_events_iff.mpr ⟨1, rfl⟩, by decide, by decide⟩

/-- One call before the other is an immediate cause. -/
theorem call_before_is_immediate_cause :
    middleCall ∈ (logAfter (threeCalls.take 2)).events ∧
      MeansImmediate (threeCalls.take 2) middleCall := by
  have he : (logAfter (threeCalls.take 2)).events = [firstCall, middleCall] := rfl
  have hmem : middleCall ∈ (logAfter (threeCalls.take 2)).events := by
    rw [he]
    exact List.mem_cons_of_mem _ (List.mem_singleton_self _)
  refine ⟨hmem, (meansImmediate_iff (threeCalls.take 2) middleCall hmem).mpr (.inr ⟨?_, ?_⟩)⟩
  · intro c hc d hd _ hb
    rw [he, List.mem_pair] at hc hd
    rcases hd with rfl | rfl
    · rcases hc with rfl | rfl
      · exact absurd hb.1 (by decide)
      · exact absurd hb.1 (by decide)
    · exact absurd hb.2 (by decide)
  · intro c hc hs
    rw [he, List.mem_pair] at hc
    rcases hc with rfl | rfl
    · exact absurd hs (by decide)
    · exact absurd hs (by decide)

end faultbox.direct_causes
