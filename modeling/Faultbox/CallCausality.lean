-- A call of the test body in the trace: the request event, what the services do
-- meanwhile, and the reply event. Every event of the target is before the reply.
-- The request is before none of them, as the target takes the caller's clock over
-- before the request moves it on: only a caller on the lane of the target, or
-- a caller that is a service whose clock a network call of the target takes over
-- later, is seen.
import Faultbox.Causality

open goval faultbox.event_log

namespace faultbox.causality

/-! ## Calls -/

/-- What the services do while a call is under way: an event, or the takeover of all
other services' clocks at a network call of a service. -/
inductive Activity where
  | emit (typ service : String) (fields : GoMap String String)
  | networkCall (service : String)

/-- `mergeClocksForNetworkCall`. -/
def mergeClocksForNetworkCall (order : MapOrder) (services : List String) (svcName : String) :
    List Op :=
  ((order.order services).filter fun name => name ≠ svcName).map fun name =>
    .mergeClock svcName name

def Activity.ops (order : MapOrder) (services : List String) : Activity → List Op
  | .emit typ service fields => [.emit typ service fields]
  | .networkCall service => mergeClocksForNetworkCall order services service

def during (order : MapOrder) (services : List String) (activity : List Activity) : List Op :=
  activity.flatMap (Activity.ops order services)

/-- The four calls that record a request and a reply. A client call also ends with
the event of a contract violation, and with an error when validation is strict. -/
inductive Call where
  | step (target : String) (send recv : GoMap String String)
  | kafkaWait (target : String) (send recv : GoMap String String)
  | http (client target : String) (send recv : GoMap String String)
      (violation : Option (GoMap String String × Bool))
  | grpc (client target : String) (send recv : GoMap String String)
      (violation : Option (GoMap String String × Bool))

def Call.caller : Call → String
  | .step .. | .kafkaWait .. => "test"
  | .http client .. | .grpc client .. => client

def Call.target : Call → String
  | .step target .. | .kafkaWait target .. | .http _ target .. | .grpc _ target .. => target

def Call.requestType : Call → String
  | .step .. | .kafkaWait .. => "step_send"
  | .http .. | .grpc .. => "client_call"

def Call.replyType : Call → String
  | .step .. | .kafkaWait .. => "step_recv"
  | .http .. | .grpc .. => "client_return"

def Call.requestFields : Call → GoMap String String
  | .step _ send _ | .kafkaWait _ send _ | .http _ _ send .. | .grpc _ _ send .. => send

def Call.replyFields : Call → GoMap String String
  | .step _ _ recv | .kafkaWait _ _ recv | .http _ _ _ recv _ | .grpc _ _ _ recv _ => recv

/-- `executeClientCall` records that the test body caused the call. -/
def Call.before : Call → List Op
  | .step .. | .kafkaWait .. => []
  | .http client .. | .grpc client .. => [.mergeClock client "test"]

def Call.sent (c : Call) : List Op := c.before ++ [.mergeClock c.target c.caller]

def Call.exchanged (c : Call) (between : List Op) : List Op :=
  .emit c.requestType c.caller c.requestFields :: between ++ [.mergeClock c.caller c.target]

def clientEnd (client : String) : Option (GoMap String String × Bool) → List Op
  | none => [.mergeClock "test" client]
  | some (fields, strict) =>
    .emit "contract_violation" client fields :: if strict then [] else [.mergeClock "test" client]

def Call.after : Call → List Op
  | .step .. | .kafkaWait .. => []
  | .http client _ _ _ violation | .grpc client _ _ _ violation => clientEnd client violation

/-- All operations of a call: `executeStep`, `executeKafkaWait`, `executeHTTPClientCall`
and `executeGRPCClientCall`, where the target answers. -/
def Call.ops (c : Call) (between : List Op) : List Op :=
  c.sent ++ c.exchanged between ++ .emit c.replyType c.caller c.replyFields :: c.after

/-- The event that `Emit` records after a sequence of operations. -/
def eventAfter (ops : List Op) (typ service : String) (fields : GoMap String String) : Event :=
  (logAfter ops).newEvent typ service fields

section call

variable (order : MapOrder) (services : List String) (past : List Op) (c : Call)
  (activity : List Activity)

def request : Event :=
  eventAfter (past ++ c.sent) c.requestType c.caller c.requestFields

def emittedAfter (first : List Activity) (typ : String) (fields : GoMap String String) : Event :=
  eventAfter (past ++ c.sent ++
    .emit c.requestType c.caller c.requestFields :: during order services first) typ c.target fields

def reply : Event :=
  eventAfter (past ++ c.sent ++ c.exchanged (during order services activity))
    c.replyType c.caller c.replyFields

/-- Every event that the target emits during the call is after the request, and
before the reply. -/
def RequestPrecedes : Prop :=
  ∀ first typ fields rest, activity = first ++ .emit typ c.target fields :: rest →
    happensBefore (request past c) (emittedAfter order services past c first typ fields) = true ∧
    happensBefore (emittedAfter order services past c first typ fields)
      (reply order services past c activity) = true

/-- The caller's clock reaches the target once more, after the request: the lane is
the same, or the caller is a service and the target makes a network call. -/
def Reached (first : List Activity) : Prop :=
  c.caller = c.target ∨ c.caller ∈ services ∧ .networkCall c.target ∈ first

end call

/-! ## Positions -/

theorem recordedBy_eventAfter (first rest : List Op) (typ service : String)
    (fields : GoMap String String) :
    recordedBy (first ++ .emit typ service fields :: rest) first.length =
      some (eventAfter first typ service fields) := by
  have hop : (first ++ Op.emit typ service fields :: rest)[first.length]? =
      some (.emit typ service fields) := by simp
  rw [recordedBy_emit hop, List.take_left]
  rfl

theorem mem_mergeClocks {order : MapOrder} {services : List String} {svcName : String} {op : Op} :
    op ∈ mergeClocksForNetworkCall order services svcName ↔
      ∃ name ∈ services, name ≠ svcName ∧ op = .mergeClock svcName name := by
  unfold mergeClocksForNetworkCall
  simp only [List.mem_map, List.mem_filter, (order.perm services).mem_iff, decide_eq_true_eq]
  constructor
  · rintro ⟨name, ⟨hmem, hne⟩, rfl⟩
    exact ⟨name, hmem, hne, rfl⟩
  · rintro ⟨name, hmem, hne, rfl⟩
    exact ⟨name, ⟨hmem, hne⟩, rfl⟩

theorem mergeClock_mem_during {order : MapOrder} {services : List String}
    {activity : List Activity} {localName remote : String} :
    .mergeClock localName remote ∈ during order services activity ↔
      .networkCall localName ∈ activity ∧ remote ∈ services ∧ remote ≠ localName := by
  unfold during
  rw [List.mem_flatMap]
  constructor
  · rintro ⟨act, hact, hop⟩
    cases act with
    | emit typ service fields => simp [Activity.ops] at hop
    | networkCall service =>
      obtain ⟨name, hmem, hne, heq⟩ := mem_mergeClocks.mp hop
      cases heq
      exact ⟨hact, hmem, hne⟩
  · rintro ⟨hact, hmem, hne⟩
    exact ⟨_, hact, mem_mergeClocks.mpr ⟨remote, hmem, hne, rfl⟩⟩

theorem mergeClock_of_actOf {op : Op} {localName remote : String}
    (h : actOf op = .merge localName remote) : op = .mergeClock localName remote := by
  cases op with
  | emit typ service fields =>
    rw [actOf] at h
    split at h <;> cases h
  | mergeClock l r =>
    cases h
    rfl

/-! ## What the target knows of the request -/

section split

variable {order : MapOrder} {services : List String} {first : List Activity}
  {before rest : List Op} {op : Op} {p q : String}

theorem getElem?_during {k : Nat} (hlt : before.length < k)
    (hk : k < before.length + 1 + (during order services first).length) :
    (before ++ op :: (during order services first ++ rest))[k]? =
      (during order services first)[k - before.length - 1]? := by
  obtain ⟨n, rfl⟩ := Nat.exists_eq_add_of_lt hlt
  have hn : n < (during order services first).length := by omega
  rw [List.getElem?_append_right (by omega), Nat.add_assoc, Nat.add_sub_cancel_left,
    List.getElem?_cons_succ, List.getElem?_append_left hn, Nat.add_sub_cancel]

/-- Up to the end of the activity, takeovers hand the request to a service only from
another service, and only at a network call of that service. -/
theorem handed_during {m : Nat}
    (hd : vclock.Handed ((before ++ op :: (during order services first ++ rest)).map actOf)
      before.length p m q)
    (hm : m < before.length + 1 + (during order services first).length) :
    q = p ∨ p ∈ services ∧ .networkCall q ∈ first := by
  induction hd with
  | own => exact .inl rfl
  | @merge n k target source hd' hlt hk ih =>
    have hn : before.length ≤ n := vclock.handed_le hd'
    rw [List.getElem?_map, getElem?_during (by omega) hm, Option.map_eq_some_iff] at hk
    obtain ⟨op', hop', hact⟩ := hk
    rw [mergeClock_of_actOf hact] at hop'
    obtain ⟨hc, hs, -⟩ := mergeClock_mem_during.mp (List.mem_of_getElem? hop')
    rcases ih (by omega) with rfl | ⟨hp, -⟩
    · exact .inr ⟨hs, hc⟩
    · exact .inr ⟨hp, hc⟩

theorem handed_of_networkCall (hp : p ∈ services) (hc : .networkCall q ∈ first) (hne : p ≠ q) :
    ∃ m < before.length + 1 + (during order services first).length,
      vclock.Handed ((before ++ op :: (during order services first ++ rest)).map actOf)
        before.length p m q := by
  have hmem : Op.mergeClock q p ∈ during order services first :=
    mergeClock_mem_during.mpr ⟨hc, hp, hne⟩
  obtain ⟨n, hn, hget⟩ := List.getElem_of_mem hmem
  refine ⟨before.length + 1 + n, by omega, vclock.Handed.own.merge (by omega) ?_⟩
  rw [List.getElem?_map, getElem?_during (by omega) (by omega)]
  have hsub : before.length + 1 + n - before.length - 1 = n := by omega
  rw [hsub, List.getElem?_eq_getElem hn, hget]
  rfl

end split

section law

variable (order : MapOrder) (services : List String) (past : List Op) (c : Call)
  (first rest : List Activity) (typ : String) (fields : GoMap String String)

def leftOver : List Op :=
  during order services rest ++
    .mergeClock c.caller c.target :: .emit c.replyType c.caller c.replyFields :: c.after

def around : List Op :=
  (past ++ c.sent) ++ .emit c.requestType c.caller c.requestFields ::
    (during order services first ++ (.emit typ c.target fields :: leftOver order services c rest))

def position : Nat := (past ++ c.sent).length + 1 + (during order services first).length

def replyPosition : Nat :=
  position order services past c first + 1 + (during order services rest).length + 1

theorem recordedBy_request :
    recordedBy (around order services past c first rest typ fields) (past ++ c.sent).length =
      some (request past c) :=
  recordedBy_eventAfter _ _ _ _ _

theorem recordedBy_emitted :
    recordedBy (around order services past c first rest typ fields)
      (position order services past c first) =
        some (emittedAfter order services past c first typ fields) := by
  have h := recordedBy_eventAfter ((past ++ c.sent) ++
    .emit c.requestType c.caller c.requestFields :: during order services first)
    (leftOver order services c rest) typ c.target fields
  rw [List.append_assoc, List.cons_append, List.length_append, List.length_cons,
    Nat.add_comm (during order services first).length, ← Nat.add_assoc] at h
  exact h

theorem recordedBy_reply :
    recordedBy (around order services past c first rest typ fields)
      (replyPosition order services past c first rest) =
        some (reply order services past c (first ++ .emit typ c.target fields :: rest)) := by
  have h := recordedBy_eventAfter (past ++ c.sent ++
    c.exchanged (during order services (first ++ .emit typ c.target fields :: rest)))
    c.after c.replyType c.caller c.replyFields
  have hops : past ++ c.sent ++
      c.exchanged (during order services (first ++ .emit typ c.target fields :: rest)) ++
        .emit c.replyType c.caller c.replyFields :: c.after =
      around order services past c first rest typ fields := by
    simp [around, leftOver, Call.exchanged, during, Activity.ops]
  have hlen : (past ++ c.sent ++
      c.exchanged (during order services (first ++ .emit typ c.target fields :: rest))).length =
      replyPosition order services past c first rest := by
    simp [replyPosition, position, Call.exchanged, during, Activity.ops]
    omega
  rw [hops, hlen] at h
  exact h

theorem request_before_iff (hc : c.caller ≠ "") (ht : c.target ≠ "") :
    happensBefore (request past c) (emittedAfter order services past c first typ fields) = true ↔
      Reached services c first := by
  have hreq := recordedBy_request order services past c first [] typ fields
  have hev := recordedBy_emitted order services past c first [] typ fields
  obtain ⟨hi, -⟩ := recorded_clock hreq hc
  obtain ⟨hj, -⟩ := recorded_clock hev ht
  rw [happensBefore_iff_causes hreq hev hc ht, vclock.causes_iff_link]
  constructor
  · rintro ⟨p, q, m, hp, hq, hd, hlt⟩
    rw [hi] at hp
    rw [hj] at hq
    cases hp
    cases hq
    rcases handed_during hd hlt with heq | hca
    · exact .inl heq.symm
    · exact .inr hca
  · intro hr
    by_cases hs : c.caller = c.target
    · have hown : vclock.Handed ((around order services past c first [] typ fields).map actOf)
          (past ++ c.sent).length c.caller (past ++ c.sent).length c.target := by
        rw [← hs]
        exact .own
      refine ⟨c.caller, c.target, _, hi, hj, hown, ?_⟩
      unfold position
      omega
    · obtain ⟨hmem, hca⟩ := hr.resolve_left hs
      obtain ⟨m, hlt, hd⟩ := handed_of_networkCall hmem hca hs
      exact ⟨c.caller, c.target, m, hi, hj, hd, hlt⟩

theorem emitted_before_reply (hc : c.caller ≠ "") (ht : c.target ≠ "") :
    happensBefore (emittedAfter order services past c first typ fields)
      (reply order services past c (first ++ .emit typ c.target fields :: rest)) = true := by
  have hev := recordedBy_emitted order services past c first rest typ fields
  have hrep := recordedBy_reply order services past c first rest typ fields
  obtain ⟨hj, -⟩ := recorded_clock hev ht
  obtain ⟨hr, -⟩ := recorded_clock hrep hc
  -- the caller takes the clock of the target over right before the reply
  have hm : ((around order services past c first rest typ fields).map actOf)[
      position order services past c first + 1 + (during order services rest).length]? =
      some (.merge c.caller c.target) := by
    have hs : around order services past c first rest typ fields =
        ((past ++ c.sent) ++ .emit c.requestType c.caller c.requestFields ::
          (during order services first ++ .emit typ c.target fields ::
            during order services rest)) ++
        .mergeClock c.caller c.target :: .emit c.replyType c.caller c.replyFields :: c.after := by
      simp [around, leftOver]
    have hlen : position order services past c first + 1 + (during order services rest).length =
        ((past ++ c.sent) ++ .emit c.requestType c.caller c.requestFields ::
          (during order services first ++ .emit typ c.target fields ::
            during order services rest)).length := by
      simp [position]
      omega
    rw [List.getElem?_map, hs, hlen, List.getElem?_append_right (Nat.le_refl _), Nat.sub_self]
    rfl
  rw [happensBefore_iff_causes hev hrep ht hc, vclock.causes_iff_link]
  refine ⟨c.target, c.caller, _, hj, hr, vclock.Handed.own.merge (by omega) hm, ?_⟩
  unfold replyPosition
  omega

theorem ordered_iff :
    (happensBefore (request past c) (emittedAfter order services past c first typ fields) = true ∧
      happensBefore (emittedAfter order services past c first typ fields)
        (reply order services past c (first ++ .emit typ c.target fields :: rest)) = true) ↔
      c.caller ≠ "" ∧ c.target ≠ "" ∧ Reached services c first := by
  have hreq := recordedBy_request order services past c first rest typ fields
  have hev := recordedBy_emitted order services past c first rest typ fields
  have hrep := recordedBy_reply order services past c first rest typ fields
  by_cases ht : c.target = ""
  · refine iff_of_false ?_ fun h => h.2.1 ht
    rintro ⟨h, -⟩
    exact not_happensBefore_bare hreq hev ht h
  by_cases hc : c.caller = ""
  · refine iff_of_false ?_ fun h => h.1 hc
    rintro ⟨-, h⟩
    exact not_happensBefore_bare hev hrep hc h
  rw [request_before_iff order services past c first typ fields hc ht]
  constructor
  · rintro ⟨hr, -⟩
    exact ⟨hc, ht, hr⟩
  · rintro ⟨-, -, hr⟩
    exact ⟨hr, emitted_before_reply order services past c first rest typ fields hc ht⟩

end law

/-- A request is before what the target does during the call, and that before the
reply, exactly when each event of the target comes after the caller's clock has
reached it: on the caller's own lane, or by a network call of the target when
the caller is a service. -/
theorem request_precedes_iff (order : MapOrder) (services : List String) (past : List Op)
    (c : Call) (activity : List Activity) :
    RequestPrecedes order services past c activity ↔
      ∀ first typ fields rest, activity = first ++ .emit typ c.target fields :: rest →
        c.caller ≠ "" ∧ c.target ≠ "" ∧ Reached services c first := by
  unfold RequestPrecedes
  constructor
  · rintro h first typ fields rest rfl
    exact (ordered_iff order services past c first rest typ fields).mp (h first typ fields rest rfl)
  · rintro h first typ fields rest rfl
    exact (ordered_iff order services past c first rest typ fields).mpr
      (h first typ fields rest rfl)

/-- One step on a service that answers with one event. -/
theorem step_not_before_its_effect :
    ¬ RequestPrecedes .asStored ["db"] [] (.step "db" ∅ ∅) [.emit "stdout" "db" ∅] := by
  intro h
  obtain ⟨-, -, hr⟩ := (ordered_iff .asStored ["db"] [] (.step "db" ∅ ∅) [] [] "stdout" ∅).mp
    (h [] "stdout" ∅ [] rfl)
  rcases hr with hs | ⟨hmem, -⟩
  · exact absurd hs (by decide)
  · exact absurd hmem (by decide)

end faultbox.causality
