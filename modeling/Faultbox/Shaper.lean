-- The bandwidth shaper of a link (internal/netfault/shape.go) as a server that works off one
-- packet after the other. The law: packets leave one behind the other, none waits longer than
-- the backlog allows, and a packet is refused exactly when the unfinished work exceeds it. The
-- difference of two times is cut off at the largest duration, so it needs a smaller backlog.
import Mathlib.Algebra.Group.Int.Defs
import Mathlib.Algebra.Group.Nat.Defs
import Mathlib.Data.Int.Order.Basic
import Mathlib.Data.List.Basic

namespace faultbox.shaper

/-! ## The shaper -/

/-- The largest `time.Duration`, in nanoseconds. -/
def maxDuration : Int := 2 ^ 63 - 1

/-- `Time.Sub`. Times are counted in nanoseconds from the zero `time.Time` on. -/
def sub (t u : Int) : Int := max (-2 ^ 63) (min (t - u) maxDuration)

structure Shaper where
  maxBacklog : Int
  nextFree : Int
  admitted : Nat
  dropped : Nat
  backlogPeak : Int

def defaultShaperBacklog : Int := 250 * 10 ^ 6

def newShaper (maxBacklog : Int) : Shaper :=
  ⟨if maxBacklog ≤ 0 then defaultShaperBacklog else maxBacklog, 0, 0, 0, 0⟩

/-- `admit`: how long the packet waits, and whether it was admitted. The rate of the link is
given by the time that it takes for each size. -/
def Shaper.admit (s : Shaper) (txTime : Int → Int) (size now : Int) : (Int × Bool) × Shaper :=
  if size ≤ 0 then ((0, true), s)
  else
    let nextFree := if s.nextFree < now then now else s.nextFree
    let backlog := sub nextFree now
    if backlog > s.maxBacklog then
      ((0, false), { s with nextFree := nextFree, dropped := s.dropped + 1 })
    else
      ((backlog, true),
        { s with
          nextFree := nextFree + txTime size
          admitted := s.admitted + 1
          backlogPeak := max s.backlogPeak backlog })

structure Call where
  size : Int
  now : Int

/-- A call with its answer. -/
structure Answer extends Call where
  wait : Int
  ok : Bool

/-- A sequence of calls: the answers, and the shaper behind them. -/
def Shaper.serve (txTime : Int → Int) : Shaper → List Call → List Answer × Shaper
  | s, [] => ([], s)
  | s, c :: calls =>
    let (answer, s) := s.admit txTime c.size c.now
    let (answers, s) := s.serve txTime calls
    (⟨c, answer.1, answer.2⟩ :: answers, s)

/-! ## The single server -/

/-- A server that has some work left at a time, and works it off as time goes by. -/
structure Server where
  time : Int
  left : Int

def Server.work (q : Server) (now : Int) : Int := max 0 (q.left - (now - q.time))

/-- Whether the server takes each packet, when it refuses work above a bound. -/
def Server.takes (txTime : Int → Int) (bound : Int) : Server → List Call → List Bool
  | _, [] => []
  | q, c :: calls =>
    if bound < q.work c.now then
      false :: Server.takes txTime bound ⟨c.now, q.work c.now⟩ calls
    else true :: Server.takes txTime bound ⟨c.now, q.work c.now + txTime c.size⟩ calls

/-! ## The property -/

/-- Packets of positive size, at times that do not go back. -/
def Timely (from' : Int) : List Call → Prop
  | [] => True
  | c :: calls => 0 < c.size ∧ from' ≤ c.now ∧ Timely c.now calls

def Answer.departure (a : Answer) : Int := a.now + a.wait

structure SingleServer (txTime : Int → Int) (s : Shaper) (calls : List Call) : Prop where
  ordered : (((s.serve txTime calls).1.filter (·.ok)).map Answer.departure).Pairwise (· ≤ ·)
  apart : ((s.serve txTime calls).1.filter (·.ok)).IsChain fun a b =>
    a.departure + txTime a.size ≤ b.departure
  bounded : ∀ a ∈ (s.serve txTime calls).1, 0 ≤ a.wait ∧ a.wait ≤ s.maxBacklog
  refused : (s.serve txTime calls).1.map (·.ok) = Server.takes txTime s.maxBacklog ⟨0, 0⟩ calls
  counted : (s.serve txTime calls).2.admitted + (s.serve txTime calls).2.dropped = calls.length

/-! ## The shaper is the server -/

section run

variable {txTime : Int → Int} {s : Shaper} {q : Server} {from' : Int} {c : Call}

/-- The time at which the link is free says how much work is left. -/
structure Stands (s : Shaper) (q : Server) : Prop where
  free : ∀ now, q.time ≤ now → max s.nextFree now - now = q.work now
  least : 0 ≤ s.maxBacklog
  below : s.maxBacklog < maxDuration

theorem sub_of_le {t u : Int} (h : u ≤ t) : sub t u = min (t - u) maxDuration := by
  unfold sub maxDuration
  omega

theorem admit_eq (txTime : Int → Int) (h : Stands s q) (hs : 0 < c.size)
    (hnow : q.time ≤ c.now) :
    s.admit txTime c.size c.now =
      if s.maxBacklog < q.work c.now then
        ((0, false), { s with nextFree := max s.nextFree c.now, dropped := s.dropped + 1 })
      else
        ((q.work c.now, true),
          { s with
            nextFree := c.now + q.work c.now + txTime c.size
            admitted := s.admitted + 1
            backlogPeak := max s.backlogPeak (q.work c.now) }) := by
  have hf := h.free c.now hnow
  have hn : (if s.nextFree < c.now then c.now else s.nextFree) = max s.nextFree c.now := by
    split <;> omega
  have hcut : sub (max s.nextFree c.now) c.now = min (q.work c.now) maxDuration := by
    rw [sub_of_le (by omega), hf]
  have hb := h.below
  unfold Shaper.admit
  rw [if_neg (by omega)]
  simp only [hn, hcut]
  by_cases hfu : s.maxBacklog < q.work c.now
  · rw [if_pos (by omega), if_pos hfu]
  · rw [if_neg (by omega), if_neg hfu]
    have hw : min (q.work c.now) maxDuration = q.work c.now := by omega
    have hsum : max s.nextFree c.now = c.now + q.work c.now := by omega
    rw [hw, hsum]

theorem stands_next (h : Stands s q) {s' : Shaper} (left : Int)
    (hb : s'.maxBacklog = s.maxBacklog) (hf : max s'.nextFree c.now = c.now + left) :
    Stands s' ⟨c.now, left⟩ := by
  refine ⟨fun now hl => ?_, hb ▸ h.least, hb ▸ h.below⟩
  unfold Server.work
  dsimp only at hl ⊢
  omega

theorem work_nonneg (q : Server) (now : Int) : 0 ≤ q.work now := le_max_left _ _

/-- What holds of a sequence of calls from any state: no packet leaves before the work that is
there is done. -/
theorem serve_spec (htx : ∀ size, 0 ≤ txTime size) (calls : List Call) (h : Stands s q)
    (hc : Timely q.time calls) :
    (∀ a ∈ (s.serve txTime calls).1, q.time ≤ a.now ∧ 0 ≤ a.wait ∧ a.wait ≤ s.maxBacklog ∧
      (a.ok = true → q.time + q.left ≤ a.departure)) ∧
    ((s.serve txTime calls).1.filter (·.ok)).Pairwise (fun a b =>
      a.departure + txTime a.size ≤ b.departure) ∧
    (s.serve txTime calls).1.map (·.ok) = Server.takes txTime s.maxBacklog q calls ∧
    (s.serve txTime calls).2.admitted + (s.serve txTime calls).2.dropped =
      s.admitted + s.dropped + calls.length := by
  induction calls generalizing s q with
  | nil => simp [Shaper.serve, Server.takes]
  | cons c calls ih =>
    obtain ⟨hs, hnow, hr⟩ := hc
    have hf := h.free c.now hnow
    have hpos := work_nonneg q c.now
    have hl : q.time + q.left ≤ c.now + q.work c.now := by
      unfold Server.work
      omega
    have had := admit_eq txTime h hs hnow
    unfold Shaper.serve Server.takes
    by_cases hfu : s.maxBacklog < q.work c.now
    · rw [if_pos hfu] at had
      simp only [had, if_pos hfu]
      have hn : Stands { s with nextFree := max s.nextFree c.now, dropped := s.dropped + 1 }
          ⟨c.now, q.work c.now⟩ := stands_next h _ rfl (by dsimp only; omega)
      obtain ⟨hall, hap, ht, hco⟩ := ih hn hr
      dsimp only at hall hco
      refine ⟨?_, ?_, ?_, ?_⟩
      · intro a ha
        rcases List.mem_cons.mp ha with rfl | ha
        · exact ⟨hnow, le_refl _, h.least, fun hok => nomatch hok⟩
        · obtain ⟨hla, hw, hbo, hdep⟩ := hall a ha
          exact ⟨le_trans hnow hla, hw, hbo, fun hok => le_trans hl (hdep hok)⟩
      · simpa using hap
      · simpa using ht
      · simp only [List.length_cons]
        omega
    · rw [if_neg hfu] at had
      simp only [had, if_neg hfu]
      have hti := htx c.size
      obtain ⟨hall, hap, ht, hco⟩ :=
        ih (s := { s with
            nextFree := c.now + q.work c.now + txTime c.size
            admitted := s.admitted + 1
            backlogPeak := max s.backlogPeak (q.work c.now) })
          (stands_next h (q.work c.now + txTime c.size) rfl (by dsimp only; omega)) hr
      dsimp only at hall hco
      refine ⟨?_, ?_, ?_, ?_⟩
      · intro a ha
        rcases List.mem_cons.mp ha with rfl | ha
        · exact ⟨hnow, hpos, by dsimp only; omega, fun _ => hl⟩
        · obtain ⟨hla, hw, hbo, hdep⟩ := hall a ha
          refine ⟨le_trans hnow hla, hw, hbo, fun hok => ?_⟩
          have hbe := hdep hok
          omega
      · -- every later packet leaves behind the work of this one
        refine List.pairwise_cons.mpr ⟨fun b hb => ?_, hap⟩
        obtain ⟨hin, hok⟩ := List.mem_filter.mp hb
        have hbe := (hall b hin).2.2.2 hok
        unfold Answer.departure at hbe ⊢
        dsimp only at hbe ⊢
        omega
      · simpa using ht
      · simp only [List.length_cons]
        omega

end run

/-! ## The law -/

/-- With a backlog below the largest duration, the shaper is a single server. -/
theorem shaper_is_single_server (txTime : Int → Int) (htx : ∀ size, 0 ≤ txTime size)
    (maxBacklog : Int) (hmax : maxBacklog < maxDuration) (calls : List Call)
    (hcalls : Timely 0 calls) : SingleServer txTime (newShaper maxBacklog) calls := by
  have hs : Stands (newShaper maxBacklog) ⟨0, 0⟩ := by
    refine ⟨fun now hnow => ?_, ?_, ?_⟩
    · unfold Server.work newShaper
      dsimp only at hnow ⊢
      omega
    · unfold newShaper defaultShaperBacklog
      dsimp only
      split <;> omega
    · unfold newShaper defaultShaperBacklog
      dsimp only
      split
      · decide
      · exact hmax
  obtain ⟨hall, hap, ht, hc⟩ := serve_spec htx calls hs hcalls
  refine ⟨?_, hap.isChain, fun a ha => ⟨(hall a ha).2.1, (hall a ha).2.2.1⟩, ht, ?_⟩
  · rw [List.pairwise_map]
    exact hap.imp fun {a b} h => le_trans (Int.le_add_of_nonneg_right (htx a.size)) h
  · simpa [newShaper] using hc

/-- The link is busy, refuses a packet, and idles; a backlog of zero stands for the default. -/
theorem busy_link_is_single_server :
    SingleServer (fun size => (size.toNat * 10 ^ 6 : Nat)) (newShaper 0)
      [⟨200, 5⟩, ⟨100, 5⟩, ⟨100, 5⟩, ⟨1, 10 ^ 9⟩] :=
  shaper_is_single_server _ (fun _ => Int.natCast_nonneg _) 0 (by decide) _ (by simp [Timely])

/-- With the largest duration as its backlog, the third of three packets of 292 years, the
longest ones that a rate gives, leaves a microsecond after the second one. -/
theorem third_packet_leaves_early :
    ¬ SingleServer (fun _ => 2 ^ 63 - 1024) (newShaper maxDuration)
      [⟨1, 0⟩, ⟨1, 0⟩, ⟨1, 0⟩] := by
  intro h
  exact absurd h.apart (by decide)

end faultbox.shaper
