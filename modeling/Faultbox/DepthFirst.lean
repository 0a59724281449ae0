-- Depth-first search over a graph of successor lists. A node is listed after the nodes behind
-- it; a node on the way to itself stops a strict search and is passed over by a lax one.
-- The laws: on the nodes of a closed set the search ends, lists every one once, and puts a node
-- behind a successor that does not lead back to it. A strict search stops only on a cycle.
import Mathlib.Data.List.Nodup
import Mathlib.Data.List.Perm.Subperm
import Mathlib.Logic.Relation

open Relation

namespace depthfirst

/-- Why a search has no list. -/
inductive Stop (α : Type) where
  | cycle (node : α)
  | fuel

variable {α : Type} [DecidableEq α] (strict : Bool) (next : α → List α)

/-- `path` holds the nodes on the way, `done` the nodes that are listed. -/
def visit : Nat → List α → List α → α → Except (Stop α) (List α)
  | 0, _, _, _ => .error .fuel
  | fuel + 1, path, done, x =>
    if x ∈ done then .ok done
    else if x ∈ path then
      if strict then .error (.cycle x) else .ok done
    else
      match (next x).foldlM (visit fuel (x :: path)) done with
      | .error e => .error e
      | .ok done' => .ok (done' ++ [x])

def sort (fuel : Nat) (xs : List α) : Except (Stop α) (List α) :=
  xs.foldlM (visit strict next fuel []) []

/-! ## Folds that may fail -/

section folds

omit [DecidableEq α]

variable {β ε : Type} {f : β → α → Except ε β} {xs : List α} {b c : β}

theorem foldlM_cons_ok {x : α} (h : (x :: xs).foldlM f b = .ok c) :
    ∃ m, f b x = .ok m ∧ xs.foldlM f m = .ok c := by
  rw [List.foldlM_cons] at h
  cases hf : f b x with
  | error e =>
    rw [hf] at h
    cases h
  | ok m =>
    rw [hf] at h
    exact ⟨m, rfl, h⟩

theorem foldlM_ok {P : β → Prop} (hf : ∀ b x c, x ∈ xs → f b x = .ok c → P b → P c)
    (h : xs.foldlM f b = .ok c) (hb : P b) : P c := by
  induction xs generalizing b with
  | nil =>
    cases h
    exact hb
  | cons x xs ih =>
    obtain ⟨m, hm, h⟩ := foldlM_cons_ok h
    exact ih (fun b y c hy => hf b y c (List.mem_cons_of_mem _ hy)) h
      (hf b x m List.mem_cons_self hm hb)

theorem foldlM_error {e : ε} (h : xs.foldlM f b = .error e) :
    ∃ x ∈ xs, ∃ m, f m x = .error e := by
  induction xs generalizing b with
  | nil => cases h
  | cons x xs ih =>
    rw [List.foldlM_cons] at h
    cases hf : f b x with
    | error e' =>
      rw [hf] at h
      cases h
      exact ⟨x, List.mem_cons_self, b, hf⟩
    | ok m =>
      rw [hf] at h
      obtain ⟨y, hy, m, hm⟩ := ih h
      exact ⟨y, List.mem_cons_of_mem _ hy, m, hm⟩

end folds

/-! ## What a search adds -/

def Edge (x y : α) : Prop := y ∈ next x

/-- From the nodes `done`, with `path` on the way, a search from `xs` gives the nodes `after`. -/
structure Grown (path done xs after : List α) : Prop where
  keeps : done <+: after
  fresh : ∀ y ∈ after, y ∈ done ∨ y ∉ path ∧ ∃ x ∈ xs, ReflTransGen (Edge next) x y
  nodup : done.Nodup → after.Nodup
  seen : ∀ x ∈ xs, x ∈ after ∨ strict = false ∧ x ∈ path

variable {strict next}

omit [DecidableEq α] in
theorem Grown.refl (path done : List α) : Grown strict next path done [] done :=
  ⟨List.prefix_rfl, fun _ hy => .inl hy, id, by simp⟩

omit [DecidableEq α] in
theorem Grown.cons {path done mid after xs : List α} {x : α}
    (hx : Grown strict next path done [x] mid) (hxs : Grown strict next path mid xs after) :
    Grown strict next path done (x :: xs) after where
  keeps := hx.keeps.trans hxs.keeps
  fresh := by
    intro y hy
    rcases hxs.fresh y hy with hm | ⟨hp, z, hz, hr⟩
    · rcases hx.fresh y hm with hd | ⟨hp, z, hz, hr⟩
      · exact .inl hd
      · rw [List.mem_singleton.mp hz] at hr
        exact .inr ⟨hp, x, List.mem_cons_self, hr⟩
    · exact .inr ⟨hp, z, List.mem_cons_of_mem _ hz, hr⟩
  nodup := fun hn => hxs.nodup (hx.nodup hn)
  seen := by
    intro z hz
    rcases List.mem_cons.mp hz with rfl | hz
    · rcases hx.seen z List.mem_cons_self with hm | hp
      · exact .inl (hxs.keeps.subset hm)
      · exact .inr hp
    · exact hxs.seen z hz

omit [DecidableEq α] in
theorem grown_foldlM {path done after xs : List α} {f : List α → α → Except (Stop α) (List α)}
    (hf : ∀ d x d', f d x = .ok d' → Grown strict next path d [x] d')
    (h : xs.foldlM f done = .ok after) : Grown strict next path done xs after := by
  induction xs generalizing done with
  | nil =>
    cases h
    exact .refl path _
  | cons x xs ih =>
    obtain ⟨mid, hm, h⟩ := foldlM_cons_ok h
    exact (hf done x mid hm).cons (ih h)

omit [DecidableEq α] in
/-- A node is listed behind its successors. -/
theorem Grown.snoc {path done mid : List α} {x : α} (hd : x ∉ done) (hp : x ∉ path)
    (h : Grown strict next (x :: path) done (next x) mid) :
    Grown strict next path done [x] (mid ++ [x]) where
  keeps := h.keeps.trans (List.prefix_append mid [x])
  fresh := by
    intro y hy
    rcases List.mem_append.mp hy with hm | hx
    · rcases h.fresh y hm with hy | ⟨hyp, z, hz, hr⟩
      · exact .inl hy
      · exact .inr ⟨fun hmem => hyp (List.mem_cons_of_mem _ hmem), x, List.mem_cons_self,
          ReflTransGen.head hz hr⟩
    · rw [List.mem_singleton.mp hx]
      exact .inr ⟨hp, x, List.mem_cons_self, .refl⟩
  nodup := by
    intro hn
    have hx : x ∉ mid := by
      intro hmem
      rcases h.fresh x hmem with hy | ⟨hyp, -⟩
      · exact hd hy
      · exact hyp List.mem_cons_self
    exact List.nodup_append_comm.mp (List.nodup_cons.mpr ⟨hx, h.nodup hn⟩)
  seen := by
    intro z hz
    exact .inl (List.mem_append_right mid hz)

theorem visit_cases {fuel : Nat} {path done after : List α} {x : α}
    (h : visit strict next (fuel + 1) path done x = .ok after) :
    (x ∈ done ∧ after = done) ∨ (x ∈ path ∧ strict = false ∧ after = done) ∨
      (x ∉ done ∧ x ∉ path ∧ ∃ mid,
        (next x).foldlM (visit strict next fuel (x :: path)) done = .ok mid ∧
          after = mid ++ [x]) := by
  unfold visit at h
  split at h
  · cases h
    exact .inl ⟨‹_›, rfl⟩
  · split at h
    · split at h
      · cases h
      · cases h
        exact .inr (.inl ⟨‹_›, Bool.eq_false_iff.mpr ‹_›, rfl⟩)
    · split at h
      · cases h
      · cases h
        exact .inr (.inr ⟨‹_›, ‹_›, _, ‹_›, rfl⟩)

theorem visit_grown {fuel : Nat} {path done after : List α} {x : α}
    (h : visit strict next fuel path done x = .ok after) :
    Grown strict next path done [x] after := by
  induction fuel generalizing path done after x with
  | zero => cases h
  | succ fuel ih =>
    rcases visit_cases h with ⟨hx, rfl⟩ | ⟨hx, hs, rfl⟩ | ⟨hd, hp, mid, hm, rfl⟩
    · refine ⟨List.prefix_rfl, fun _ hy => .inl hy, id, ?_⟩
      intro z hz
      rw [List.mem_singleton.mp hz]
      exact .inl hx
    · refine ⟨List.prefix_rfl, fun _ hy => .inl hy, id, ?_⟩
      intro z hz
      rw [List.mem_singleton.mp hz]
      exact .inr ⟨hs, hx⟩
    · exact (grown_foldlM (fun _ _ _ => ih) hm).snoc hd hp

/-! ## The order -/

omit [DecidableEq α] in
/-- The nodes of the way lead to the visited node, and one step further. -/
theorem way_to_next {path : List α} {x y : α} (hw : ∀ p ∈ path, TransGen (Edge next) p x)
    (hy : y ∈ next x) : ∀ p ∈ x :: path, TransGen (Edge next) p y := by
  intro p hp
  rcases List.mem_cons.mp hp with rfl | hp
  · exact .single hy
  · exact (hw p hp).tail hy

/-- Every node of the list stands behind those it needs. -/
def Ordered (needs : α → α → Prop) (order : List α) : Prop :=
  ∀ l x r, order = l ++ x :: r → ∀ y, needs x y → y ∈ l

variable {needs : α → α → Prop}

omit [DecidableEq α] in
theorem Ordered.snoc {order : List α} {x : α} (h : Ordered needs order)
    (hx : ∀ y, needs x y → y ∈ order) : Ordered needs (order ++ [x]) := by
  intro l z r heq
  rcases List.eq_nil_or_concat r with rfl | ⟨r', w, rfl⟩
  · obtain ⟨rfl, he⟩ := List.append_inj' heq rfl
    cases he
    exact hx
  · have heq' : order ++ [x] = (l ++ z :: r') ++ [w] := by simpa using heq
    obtain ⟨ho, -⟩ := List.append_inj' heq' rfl
    exact h l z r' ho

theorem visit_ordered (hsub : ∀ x y, needs x y → y ∈ next x)
    (hback : strict = false → ∀ x y, needs x y → ¬ReflTransGen (Edge next) y x) {fuel : Nat}
    {path done after : List α} {x : α} (hw : ∀ p ∈ path, TransGen (Edge next) p x)
    (h : visit strict next fuel path done x = .ok after) (hd : Ordered needs done) :
    Ordered needs after := by
  induction fuel generalizing path done after x with
  | zero => cases h
  | succ fuel ih =>
    rcases visit_cases h with ⟨-, rfl⟩ | ⟨-, -, rfl⟩ | ⟨-, -, mid, hm, rfl⟩
    · exact hd
    · exact hd
    · have hmid : Ordered needs mid :=
        foldlM_ok (fun _ y _ hy hv => ih (way_to_next hw hy) hv) hm hd
      apply hmid.snoc
      intro y hy
      have hseen := (grown_foldlM (fun _ _ _ => visit_grown) hm).seen y (hsub x y hy)
      rcases hseen with hmem | ⟨hs, hp⟩
      · exact hmem
      · -- a successor on the way leads back
        exfalso
        apply hback hs x y hy
        rcases List.mem_cons.mp hp with rfl | hp
        · exact .refl
        · exact (hw y hp).to_reflTransGen

theorem Ordered.idxOf_lt {order : List α} (h : Ordered needs order) {x y : α} (hx : x ∈ order)
    (hy : needs x y) : y ∈ order ∧ order.idxOf y < order.idxOf x := by
  have hlt : order.idxOf x < order.length := List.idxOf_lt_length_of_mem hx
  have hsplit : order = order.take (order.idxOf x) ++ x :: order.drop (order.idxOf x + 1) := by
    conv_lhs => rw [← List.take_append_drop (order.idxOf x) order]
    rw [List.drop_eq_getElem_cons hlt, List.getElem_idxOf hlt]
  have hmem := h _ x _ hsplit y hy
  refine ⟨List.mem_of_mem_take hmem, ?_⟩
  have hinside := List.idxOf_lt_length_of_mem hmem
  rw [List.length_take] at hinside
  have hfirst : order.idxOf y = (order.take (order.idxOf x)).idxOf y := by
    conv_lhs => rw [hsplit, List.idxOf_append, if_pos hmem]
  omega

/-- An ordered list meets no cycle. -/
theorem Ordered.acyclic {order : List α} (h : Ordered needs order) {x : α} (hx : x ∈ order) :
    ¬TransGen needs x x := by
  have hdown : ∀ y, TransGen needs x y → y ∈ order ∧ order.idxOf y < order.idxOf x := by
    intro y hy
    induction hy with
    | single he => exact h.idxOf_lt hx he
    | tail _ he ih =>
      obtain ⟨hz, hlt⟩ := h.idxOf_lt ih.1 he
      exact ⟨hz, Nat.lt_trans hlt ih.2⟩
  intro hc
  exact absurd (hdown x hc).2 (Nat.lt_irrefl _)

/-! ## Where a search stops -/

/-- With more fuel than nodes a search stops only on a cycle. -/
theorem visit_error {nodes : List α} (hn : ∀ x ∈ nodes, ∀ y ∈ next x, y ∈ nodes) {fuel : Nat}
    {path done : List α} {x : α} {e : Stop α} (hp : path.Nodup) (hpn : path ⊆ nodes)
    (hx : x ∈ nodes) (hf : nodes.length < path.length + fuel)
    (hw : ∀ p ∈ path, TransGen (Edge next) p x)
    (h : visit strict next fuel path done x = .error e) :
    strict = true ∧ ∃ y ∈ nodes, e = .cycle y ∧ TransGen (Edge next) y y := by
  induction fuel generalizing path done x with
  | zero =>
    have hle := (List.subperm_of_subset hp hpn).length_le
    omega
  | succ fuel ih =>
    unfold visit at h
    split at h
    · cases h
    · split at h
      · rename_i hmem
        split at h
        · cases h
          exact ⟨‹_›, x, hx, rfl, hw x hmem⟩
        · cases h
      · rename_i hnot
        split at h
        · rename_i e' hfold
          cases h
          obtain ⟨y, hy, d, hv⟩ := foldlM_error hfold
          refine ih (List.nodup_cons.mpr ⟨hnot, hp⟩) (List.cons_subset.mpr ⟨hx, hpn⟩)
            (hn x hx y hy) ?_ (way_to_next hw hy) hv
          rw [List.length_cons]
          omega
        · cases h

/-! ## Sorting -/

section sorting

variable {nodes xs order : List α} {fuel : Nat}

theorem sort_grown (h : sort strict next fuel xs = .ok order) :
    Grown strict next [] [] xs order :=
  grown_foldlM (fun _ _ _ => visit_grown) h

theorem sort_nodup (h : sort strict next fuel xs = .ok order) : order.Nodup :=
  (sort_grown h).nodup List.nodup_nil

theorem subset_sort (h : sort strict next fuel xs = .ok order) : xs ⊆ order := by
  intro x hx
  rcases (sort_grown h).seen x hx with hm | ⟨-, hp⟩
  · exact hm
  · cases hp

theorem sort_subset (hn : ∀ x ∈ nodes, ∀ y ∈ next x, y ∈ nodes) (hxs : xs ⊆ nodes)
    (h : sort strict next fuel xs = .ok order) : order ⊆ nodes := by
  intro y hy
  rcases (sort_grown h).fresh y hy with hd | ⟨-, x, hx, hr⟩
  · cases hd
  · clear hy
    induction hr with
    | refl => exact hxs hx
    | tail _ he ih => exact hn _ ih _ he

theorem sort_ordered (hsub : ∀ x y, needs x y → y ∈ next x)
    (hback : strict = false → ∀ x y, needs x y → ¬ReflTransGen (Edge next) y x)
    (h : sort strict next fuel xs = .ok order) : Ordered needs order := by
  refine foldlM_ok (fun d x d' _ hv hd => visit_ordered hsub hback ?_ hv hd) h ?_
  · simp
  · intro l x r heq
    simp at heq

theorem sort_error (hn : ∀ x ∈ nodes, ∀ y ∈ next x, y ∈ nodes) (hxs : xs ⊆ nodes)
    (hf : nodes.length < fuel) {e : Stop α} (h : sort strict next fuel xs = .error e) :
    strict = true ∧ ∃ y ∈ nodes, e = .cycle y ∧ TransGen (Edge next) y y := by
  obtain ⟨x, hx, d, hv⟩ := foldlM_error h
  exact visit_error hn List.nodup_nil (List.nil_subset _) (hxs hx) (by simpa using hf) (by simp) hv

end sorting

end depthfirst
