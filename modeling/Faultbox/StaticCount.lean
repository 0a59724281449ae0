-- The plan counts every choose() call of a body, the runner only the axes it
-- can address. The law: the two counts agree exactly when what the runner
-- drops is made up for by sites that the plan does not see.
import Faultbox.ChooseAxes
import Faultbox.Fanout

open goval faultbox.plan_tree faultbox.fanout

namespace faultbox.plan

variable {V σ : Type}
variable {n body : Node} {name : String}

/-! ## What the scan finds in a literal body -/

theorem visit_of_not_choose (st : Nat × List ChooseAxis) (h : n.isChoose = false) :
    visit st n = st ∧ literalCall n = none := by
  constructor
  · unfold visit
    split
    · simp [Node.isChoose] at h
    · simp [Node.isChoose] at h
    · rfl
  · unfold literalCall
    split
    · simp [Node.isChoose] at h
    · simp [Node.isChoose] at h
    · rfl

theorem visit_literal (st : Nat × List ChooseAxis) {count : Nat}
    (h : literalCall n = some (name, count + 1)) :
    (visit st n).2.map (·.cardinality) = st.2.map (·.cardinality) ++ [(count + 1 : Int)] := by
  unfold literalCall at h
  split at h
  · rename_i elems
    have hlen : elems.length = count + 1 := by simpa using (congrArg Prod.snd (Option.some.inj h))
    have hne : elems ≠ [] := List.ne_nil_of_length_eq_add_one hlen
    simp [visit, literalOptions, ChooseAxis.cardinality, hne, hlen]
  · rename_i str elems
    have hlen : elems.length = count + 1 := by simpa using (congrArg Prod.snd (Option.some.inj h))
    have hne : elems ≠ [] := List.ne_nil_of_length_eq_add_one hlen
    simp [visit, literalOptions, stringLiteral, ChooseAxis.cardinality, hne, hlen]
  · cases h

theorem foldl_visit (nodes : List Node) (st : Nat × List ChooseAxis)
    (h : ∀ n ∈ nodes, n.isChoose = true → ∃ name count, literalCall n = some (name, count + 1)) :
    (nodes.foldl visit st).2.map (·.cardinality) =
      st.2.map (·.cardinality) ++ (nodes.filterMap literalCall).map fun c => (c.2 : Int) := by
  induction nodes generalizing st with
  | nil => simp
  | cons n rest ih =>
    rw [List.foldl_cons, ih _ (fun m hm => h m (List.mem_cons_of_mem _ hm))]
    by_cases hn : n.isChoose = true
    · obtain ⟨name, count, hc⟩ := h n List.mem_cons_self hn
      rw [visit_literal st hc, List.filterMap_cons_some hc]
      simp
    · have hnot := visit_of_not_choose st (by simpa using hn)
      rw [hnot.1, List.filterMap_cons_none hnot.2]

theorem cardinalities_of_literal (h : Literal body) : (chooseAxesInNode body).map (·.cardinality) =
      (chooseCalls body).map fun c => (c.2 : Int) := by
  unfold chooseAxesInNode chooseCalls
  rw [foldl_visit _ _ h]
  rfl

theorem count_pos_of_literal (h : Literal body) {c : String × Nat} (hc : c ∈ chooseCalls body) :
    0 < c.2 := by
  obtain ⟨n, hn, hca⟩ := List.mem_filterMap.mp hc
  have hch : n.isChoose = true := by
    by_contra hnot
    rw [(visit_of_not_choose (0, []) (by simpa using hnot)).2] at hca
    cases hca
  obtain ⟨name, count, hco⟩ := h n hn hch
  rw [hca] at hco
  cases hco
  exact Nat.succ_pos _

theorem prod_pos_of_literal (h : Literal body) : 0 < ((chooseCalls body).map (·.2)).prod := by
  apply List.prod_pos
  intro n hn
  obtain ⟨c, hc, rfl⟩ := List.mem_map.mp hn
  exact count_pos_of_literal h hc

/-! ## The entry of a def -/

/-- The names of the defs of a file. -/
def defNames (file : List TopStmt) : List String :=
  file.filterMap fun stmt =>
    match stmt with
    | .defStmt name _ => some name
    | .other _ => none

theorem lookup_of_not_defined (file : List TopStmt) (out : GoMap String (List ChooseAxis))
    (h : name ∉ defNames file) : (file.foldl addStmt out).lookup name = out.lookup name := by
  induction file generalizing out with
  | nil => rfl
  | cons stmt rest ih =>
    cases stmt with
    | defStmt other body =>
      simp only [defNames, List.filterMap_cons, List.mem_cons, not_or] at h
      rw [List.foldl_cons, ih _ h.2]
      simp only [addStmt]
      split
      · rfl
      · exact AList.lookup_insert_ne h.1
    | other node =>
      simp only [defNames, List.filterMap_cons] at h
      rw [List.foldl_cons, ih _ h]
      rfl

theorem lookup_of_defined (file : List TopStmt) (out : GoMap String (List ChooseAxis))
    (hn : out.lookup name = none) (hdef : TopStmt.defStmt name body ∈ file)
    (hno : (defNames file).Nodup) :
    ((file.foldl addStmt out).lookup name).getD [] = chooseAxesInNode body := by
  induction file generalizing out with
  | nil => cases hdef
  | cons stmt rest ih =>
    rw [List.foldl_cons]
    rcases List.mem_cons.mp hdef with rfl | hr
    · simp only [defNames, List.filterMap_cons, List.nodup_cons] at hno
      rw [lookup_of_not_defined rest _ hno.1]
      unfold addStmt
      by_cases he : chooseAxesInNode body = []
      · simp [he, hn]
      · simp [he]
    · cases stmt with
      | defStmt other body' =>
        simp only [defNames, List.filterMap_cons, List.nodup_cons] at hno
        have hne : name ≠ other := by
          rintro rfl
          apply hno.1
          exact List.mem_filterMap.mpr ⟨_, hr, rfl⟩
        apply ih _ _ hr hno.2
        simp only [addStmt]
        split
        · exact hn
        · rw [AList.lookup_insert_ne hne, hn]
      | other node => exact ih _ hn hr hno

/-- The plan counts the product of the options of every call. -/
theorem defEntry_instances {file : List TopStmt} (hdef : TopStmt.defStmt name body ∈ file)
    (hn : (defNames file).Nodup) (hlit : Literal body)
    (hfit : ((chooseCalls body).map (·.2)).prod < 2 ^ 63) :
    (defEntry (chooseAxesInSource file) name).instances =
      (((chooseCalls body).map (·.2)).prod : Nat) := by
  have hl : ((chooseAxesInSource file).lookup name).getD [] = chooseAxesInNode body :=
    lookup_of_defined file ∅ rfl hdef hn
  have hc : (chooseAxesInNode body).map (·.cardinality) =
      ((chooseCalls body).map (·.2)).map Int.ofNat := by
    rw [cardinalities_of_literal hlit, List.map_map]
    rfl
  have hpos := prod_pos_of_literal hlit
  have hco : chooseLeafCount (chooseAxesInNode body) =
      (((chooseCalls body).map (·.2)).prod : Nat) := by
    unfold chooseLeafCount
    rw [foldl_wrap_mul_eq _ _ _ hc hfit]
    simp only
    rw [if_neg (by omega)]
  unfold defEntry applyChooseAxes
  rw [hl]
  by_cases hnil : (chooseAxesInNode body).isEmpty = true
  · have hca : chooseCalls body = [] := by
      have := cardinalities_of_literal hlit
      rw [List.isEmpty_iff.mp hnil] at this
      simpa using this.symm
    simp [hnil, hca]
  · have hf : Fits (((chooseCalls body).map (·.2)).prod : Nat) :=
      ⟨by omega, by exact_mod_cast hfit⟩
    rw [if_neg hnil]
    show wrap (1 * chooseLeafCount (chooseAxesInNode body)) = _
    rw [one_mul, hco, wrap_of_fits hf]

/-! ## What the runner keeps -/

def shape (c : ChoiceVal V) : String × Nat := (c.name, c.options.length)

/-- The body executes all its choose() calls, as often and in whatever order,
and no named one but its own. -/
structure Executes (calls : List (String × Nat)) (records : List (ChoiceVal V)) : Prop where
  runs : ∀ c ∈ calls, ∃ r ∈ records, shape r = c
  own : ∀ r ∈ records, r.name ≠ "" → shape r ∈ calls

def lost (calls : List (String × Nat)) (axes : List (ChoiceVal V)) : List (String × Nat) :=
  calls.diff (axes.map shape)

/-- Every call with something to choose has a name, and no two share one. -/
def Addressed (calls : List (String × Nat)) : Prop :=
  (∀ c ∈ calls, 2 ≤ c.2 → c.1 ≠ "") ∧ ((calls.filter fun c => 2 ≤ c.2).map (·.1)).Nodup

section Kept

variable {calls : List (String × Nat)} {t : BodyTrace V}

theorem namedAxesFrom_complete (seen : List String) (choices : List (ChoiceVal V))
    {r : ChoiceVal V} (hr : r ∈ choices) (hn : r.name ≠ "") (ho : 2 ≤ r.options.length)
    (hs : r.name ∉ seen) : ∃ a ∈ namedAxesFrom seen choices, a.name = r.name := by
  induction choices generalizing seen with
  | nil => cases hr
  | cons c rest ih =>
    unfold namedAxesFrom
    rcases List.mem_cons.mp hr with rfl | hre
    · rw [if_neg (by simp only [hn, false_or]; omega), if_neg hs]
      exact ⟨r, List.mem_cons_self, rfl⟩
    · split
      · exact ih seen hre hs
      · split
        · exact ih seen hre hs
        · by_cases hsa : r.name = c.name
          · exact ⟨c, List.mem_cons_self, hsa.symm⟩
          · obtain ⟨a, ha, heq⟩ := ih (c.name :: seen) hre (by simp [hsa, hs])
            exact ⟨a, List.mem_cons_of_mem _ ha, heq⟩

theorem axes_append_lost_perm (h : Executes calls t.choices) :
    (t.axes.map shape ++ lost calls t.axes).Perm calls := by
  apply List.subperm_append_diff_self_of_count_le
  intro x hx
  have hn : (t.axes.map shape).Nodup := by
    apply List.Nodup.of_map Prod.fst
    rw [List.map_map]
    exact namedAxesFrom_nodup [] t.choices
  have hmem : x ∈ calls := by
    obtain ⟨a, ha, rfl⟩ := List.mem_map.mp hx
    obtain ⟨hrec, hna, -, -⟩ := namedAxesFrom_mem _ _ ha
    exact h.own a hrec hna
  rw [List.count_eq_one_of_mem hn hx]
  exact List.one_le_count_iff.mpr hmem

theorem prod_calls (h : Executes calls t.choices) :
    (calls.map (·.2)).prod =
      (t.axes.map (·.options.length)).prod * ((lost calls t.axes).map (·.2)).prod := by
  rw [← ((axes_append_lost_perm h).map (·.2)).prod_eq, List.map_append, List.prod_append,
    List.map_map]
  rfl

theorem lost_subset {c : String × Nat} (h : c ∈ lost calls t.axes) : c ∈ calls :=
  List.diff_subset _ _ h

/-- Only single options are lost exactly when every call is addressed. -/
theorem lost_single_iff (h : Executes calls t.choices) (hpos : ∀ c ∈ calls, 0 < c.2) :
    (∀ c ∈ lost calls t.axes, c.2 = 1) ↔ Addressed calls := by
  have hp := axes_append_lost_perm h
  have hm := (hp.filter fun c => 2 ≤ c.2).map (·.1)
  rw [List.filter_append, List.map_append] at hm
  have haxe : (t.axes.map shape).filter (fun c => 2 ≤ c.2) = t.axes.map shape := by
    rw [List.filter_eq_self]
    intro c hc
    obtain ⟨a, ha, rfl⟩ := List.mem_map.mp hc
    obtain ⟨-, -, ho, -⟩ := namedAxesFrom_mem _ _ ha
    exact decide_eq_true ho
  rw [haxe] at hm
  constructor
  · intro hlo
    constructor
    · intro c hc htwo
      rcases List.mem_append.mp (hp.symm.subset hc) with hax | hl
      · obtain ⟨a, ha, rfl⟩ := List.mem_map.mp hax
        exact (namedAxesFrom_mem _ _ ha).2.1
      · have := hlo c hl
        omega
    · have hn : (lost calls t.axes).filter (fun c => 2 ≤ c.2) = [] := by
        rw [List.filter_eq_nil_iff]
        intro c hc
        have := hlo c hc
        simp only [decide_eq_true_eq]
        omega
      rw [hn, List.map_nil, List.append_nil, List.map_map] at hm
      exact hm.nodup_iff.mp (namedAxesFrom_nodup [] t.choices)
  · intro had c hc
    by_contra hne
    have hin := lost_subset hc
    have htwo : 2 ≤ c.2 := by
      have := hpos c hin
      omega
    -- The call was recorded under its name, so an axis has that name too.
    obtain ⟨r, hr, hs⟩ := h.runs c hin
    have hna : r.name = c.1 := congrArg Prod.fst hs
    have ho : r.options.length = c.2 := congrArg Prod.snd hs
    obtain ⟨a, ha, heq⟩ := namedAxesFrom_complete [] t.choices hr
      (hna ▸ had.1 c hin htwo) (by omega) (by simp)
    have hno := hm.nodup_iff.mpr had.2
    have hd := List.disjoint_of_nodup_append hno
    apply hd (a := c.1)
    · rw [List.map_map]
      exact List.mem_map.mpr ⟨a, ha, by simp [shape, heq, hna]⟩
    · exact List.mem_map.mpr ⟨c, List.mem_filter.mpr ⟨hc, by simpa using htwo⟩, rfl⟩

end Kept

/-! ## The law -/

/-- The count of the plan is the number of leaves that run exactly when the
options that the runner drops multiply to what its other sites multiply to. With
no other site: exactly when every choose() with something to choose has a name
of its own. -/
theorem the_plan_counts_the_leaves_iff (file : List TopStmt) (name : String) (body : Node)
    (hdef : .defStmt name body ∈ file) (hnodup : (defNames file).Nodup) (hlit : Literal body)
    (r : Runner σ V) (s : σ) (hlive : ∀ s, r.cancelled s = false)
    (hexec : Executes (chooseCalls body) (discovery r s).choices)
    (hfit : ((chooseCalls body).map (·.2)).prod * (discovery r s).siteSizes.prod < 2 ^ 63) :
    ∃ results s', runTestFanout r name s = some (results, 0, s') ∧
      ((defEntry (chooseAxesInSource file) name).instances = results.length ↔
        ((lost (chooseCalls body) (discovery r s).axes).map (·.2)).prod =
          (discovery r s).siteSizes.prod) ∧
      ((discovery r s).siteSizes = [] →
        ((defEntry (chooseAxesInSource file) name).instances = results.length ↔
          Addressed (chooseCalls body))) := by
  have hca := prod_calls hexec
  have hpos : ∀ c ∈ chooseCalls body, 0 < c.2 := fun c hc => count_pos_of_literal hlit hc
  have hs : (discovery r s).sizes.prod =
      ((discovery r s).axes.map (·.options.length)).prod * (discovery r s).siteSizes.prod := by
    rw [BodyTrace.sizes, List.prod_append]
  have hp := prod_pos_of_literal hlit
  obtain ⟨hP, hS⟩ : ((chooseCalls body).map (·.2)).prod < 2 ^ 63 ∧
      (discovery r s).sizes.prod < 2 ^ 63 := by
    have hsi : 0 < (discovery r s).siteSizes.prod :=
      Nat.pos_of_mul_pos_left (hs ▸ sizes_pos (discovery r s))
    have hl : 0 < ((lost (chooseCalls body) (discovery r s).axes).map (·.2)).prod :=
      Nat.pos_of_mul_pos_left (hca ▸ hp)
    constructor
    · exact (Nat.le_mul_of_pos_right _ hsi).trans_lt hfit
    · rw [hs]
      apply lt_of_le_of_lt _ hfit
      apply Nat.mul_le_mul_right
      rw [hca]
      exact Nat.le_mul_of_pos_right _ hl
  obtain ⟨results, s', hrun, hlen⟩ := runTestFanout_length r name s hlive hS
  have hco : (defEntry (chooseAxesInSource file) name).instances = results.length ↔
      ((lost (chooseCalls body) (discovery r s).axes).map (·.2)).prod =
        (discovery r s).siteSizes.prod := by
    rw [defEntry_instances hdef hnodup hlit hP, hlen, Nat.cast_inj, hca, hs]
    exact Nat.mul_right_inj (Nat.pos_of_mul_pos_right (hca ▸ hp)).ne'
  refine ⟨results, s', hrun, hco, ?_⟩
  intro hn
  rw [hco, hn, List.prod_nil, ← Nat.isUnit_iff, List.prod_isUnit_iff,
    ← lost_single_iff hexec hpos, List.forall_mem_map]
  simp only [Nat.isUnit_iff]

/-- A call `choose("<name>", [0, 1])`. -/
def namedChoose (name : String) : Node :=
  .call (.ident "choose") [.string name, .list [.literal "0", .literal "1"]]

/-- A call `choose([0, 1])`. -/
def anonymousChoose : Node := .call (.ident "choose") [.list [.literal "0", .literal "1"]]

theorem mem_preorderAll {nodes : List Node} (h : n ∈ Node.preorderAll nodes) :
    ∃ m ∈ nodes, n ∈ m.preorder := by
  induction nodes with
  | nil => cases h
  | cons m rest ih =>
    rw [Node.preorderAll] at h
    rcases List.mem_append.mp h with hm | hr
    · exact ⟨m, List.mem_cons_self, hm⟩
    · obtain ⟨m', hm', hn⟩ := ih hr
      exact ⟨m', List.mem_cons_of_mem _ hm', hn⟩

theorem literal_of_choose_calls {calls : List Node}
    (h : ∀ c ∈ calls, c = anonymousChoose ∨ ∃ name, c = namedChoose name) :
    Literal (.other calls) := by
  intro n hn hch
  rw [Node.preorder] at hn
  rcases List.mem_cons.mp hn with rfl | hn
  · cases hch
  · obtain ⟨c, hc, hn⟩ := mem_preorderAll hn
    rcases h c hc with rfl | ⟨name, rfl⟩
    · simp only [anonymousChoose, Node.preorder, Node.preorderAll, List.cons_append,
        List.nil_append, List.append_nil, List.mem_cons, List.not_mem_nil, or_false] at hn
      rcases hn with rfl | rfl | rfl | rfl | rfl
      · exact ⟨"", 1, rfl⟩
      all_goals cases hch
    · simp only [namedChoose, Node.preorder, Node.preorderAll, List.cons_append,
        List.nil_append, List.append_nil, List.mem_cons, List.not_mem_nil, or_false] at hn
      rcases hn with rfl | rfl | rfl | rfl | rfl | rfl
      · exact ⟨name, 1, rfl⟩
      all_goals cases hch

def recording (choices : List (ChoiceVal Nat)) : Runner Unit Nat where
  impl _ _ _ := (.returned { name := "test_retry", result := .pass } false, ⟨choices, [], []⟩, ())
  cancelled _ := false

theorem two_named_calls_are_counted_as_they_run :
    ∃ results s', runTestFanout (recording [⟨"retries", [0, 1]⟩, ⟨"delay", [0, 1]⟩])
        "test_retry" () = some (results, 0, s') ∧
      (defEntry (chooseAxesInSource [.defStmt "test_retry"
        (.other [namedChoose "retries", namedChoose "delay"])]) "test_retry").instances =
        results.length := by
  have hlit : Literal (.other [namedChoose "retries", namedChoose "delay"]) :=
    literal_of_choose_calls (by simp)
  obtain ⟨results, s', hrun, -, hc⟩ := the_plan_counts_the_leaves_iff
    [.defStmt "test_retry" (.other [namedChoose "retries", namedChoose "delay"])] "test_retry"
    (.other [namedChoose "retries", namedChoose "delay"]) (by simp) (by decide) hlit
    (recording [⟨"retries", [0, 1]⟩, ⟨"delay", [0, 1]⟩]) () (fun _ => rfl)
    ⟨by decide, by decide⟩ (by decide)
  exact ⟨results, s', hrun, (hc rfl).mpr ⟨by decide, by decide⟩⟩

/-- An anonymous call and a name used twice, both executed: the plan counts two
and four, the runner runs one leaf and two. -/
theorem the_plan_counts_calls_that_never_fan_out :
    (Literal (.other [anonymousChoose]) ∧
      Executes (chooseCalls (.other [anonymousChoose]))
        (discovery (recording [⟨"", [0, 1]⟩]) ()).choices ∧
      (defEntry (chooseAxesInSource [.defStmt "test_retry" (.other [anonymousChoose])])
        "test_retry").instances = 2 ∧
      ∃ tr, runTestFanout (recording [⟨"", [0, 1]⟩]) "test_retry" () = some ([tr], 0, ())) ∧
    (Literal (.other [namedChoose "retries", namedChoose "retries"]) ∧
      Executes (chooseCalls (.other [namedChoose "retries", namedChoose "retries"]))
        (discovery (recording [⟨"retries", [0, 1]⟩, ⟨"retries", [0, 1]⟩]) ()).choices ∧
      (defEntry (chooseAxesInSource [.defStmt "test_retry"
        (.other [namedChoose "retries", namedChoose "retries"])]) "test_retry").instances = 4 ∧
      ∃ tr tr', runTestFanout (recording [⟨"retries", [0, 1]⟩, ⟨"retries", [0, 1]⟩])
        "test_retry" () = some ([tr, tr'], 0, ())) := by
  constructor
  · refine ⟨literal_of_choose_calls (by simp), ⟨by decide, by decide⟩, by decide, _, rfl⟩
  · refine ⟨literal_of_choose_calls (by simp), ⟨by decide, by decide⟩, by decide, _, _, rfl⟩

end faultbox.plan
