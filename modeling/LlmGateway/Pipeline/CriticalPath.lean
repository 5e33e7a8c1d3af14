import Mathlib.Algebra.Order.Group.Nat
import Mathlib.Algebra.Order.Ring.Rat
import Mathlib.Tactic.Linarith
import Mathlib.Tactic.Ring
import LlmGateway.Foundations.Binary64
import LlmGateway.Foundations.LongestPath
import LlmGateway.Pipeline.DagBuilder

/-!
# The critical path

`critical_path.py`, over finite floats: each sum and each difference is rounded. Two passes along a topological order
give the earliest and the latest start of each step; a step whose starts are less than `1e-9` apart is critical. So
where nothing is rounded (`Unrounded`) the critical steps are those on a path from a root to a leaf that is less than
`1e-9` shorter than the longest (`mem_calculateCriticalPath_iff`). The depth of a step is the number of edges on the
longest path to it (`calculateStepDepths_get?`).
-/

namespace LlmGateway.Pipeline

open Binary64 (nearest nearest_of_ofRat ofRat)
open LongestPath (IsPath IsFullPath weight greatest)

/-! ## The graph -/

/-- The ids of the steps. -/
def stepIds (nodes : Dict String StepNode) : List String := nodes.items.map Prod.fst

/-- `nodes[step_id].dependencies`. -/
def dependenciesAt (nodes : Dict String StepNode) (id : String) : List String :=
  (nodes.get? id).elim [] StepNode.dependencies

/-- `nodes[step_id].dependents`. -/
def dependentsAt (nodes : Dict String StepNode) (id : String) : List String :=
  (nodes.get? id).elim [] StepNode.dependents

/-- The dependents and the dependencies say the same. -/
def Consistent (nodes : Dict String StepNode) : Prop :=
  ∀ a b, b ∈ dependentsAt nodes a ↔ a ∈ dependenciesAt nodes b

/-- There is no cycle of dependents. -/
def AcyclicSteps (nodes : Dict String StepNode) : Prop := Kahn.Acyclic (dependentsAt nodes) (stepIds nodes)

/-- Every dependency is in front of its dependents. -/
def DependenciesFirst (nodes : Dict String StepNode) (order : List String) : Prop :=
  ∀ a ∈ stepIds nodes, ∀ b ∈ stepIds nodes, a ∈ dependenciesAt nodes b → [a, b].Sublist order

/-- A path from a root to a leaf. -/
def RootToLeaf (nodes : Dict String StepNode) (path : List String) : Prop :=
  IsFullPath (dependentsAt nodes) (dependenciesAt nodes) (stepIds nodes) path

/-! ## The functions -/

def topologicalSort (nodes : Dict String StepNode) : List String := Kahn.sort (dependentsAt nodes) (stepIds nodes)

/-- `step_durations or {step_id: 1.0 for step_id in nodes}`. -/
def durationsOf (nodes : Dict String StepNode) (stepDurations : Option (Dict String ℚ)) : Dict String ℚ :=
  (stepDurations.filter (·.items ≠ [])).getD ((stepIds nodes).foldl (fun d id => d.set id 1) ∅)

/-- `durations.get(step_id, 1.0)`. -/
def durationAt (durations : Dict String ℚ) (id : String) : ℚ := durations.getD id 1

/-- The start and the finish of a step. -/
structure Span where
  start : ℚ
  finish : ℚ

/-- The earliest start and finish: a step starts when its dependencies are finished, and at 0 without any. -/
def earliestSpan (nodes : Dict String StepNode) (durations : Dict String ℚ) (id : String)
    (earliest : String → Option Span) : Span :=
  let start := greatest ((dependenciesAt nodes id).map fun dep => (earliest dep).elim 0 Span.finish)
  ⟨start, nearest (start + durationAt durations id)⟩

/-- The latest start and finish: a step finishes before its dependents start, and in the end without any. -/
def latestSpan (nodes : Dict String StepNode) (durations : Dict String ℚ) (total : ℚ) (id : String)
    (latest : String → Option Span) : Span :=
  let finish := ((dependentsAt nodes id).map fun dep => (latest dep).elim total Span.start).min?.getD total
  ⟨nearest (finish - durationAt durations id), finish⟩

def epsilon : ℚ := nearest (1 / 10 ^ 9)

/-- The forward pass. -/
def earliestOf (nodes : Dict String StepNode) (durations : Dict String ℚ) : Dict String Span :=
  Kahn.pass (earliestSpan nodes durations) (topologicalSort nodes)

/-- The total duration, the greatest of the earliest finishes. -/
def totalOf (nodes : Dict String StepNode) (durations : Dict String ℚ) : ℚ :=
  greatest ((earliestOf nodes durations).items.map fun e => e.2.finish)

/-- The backward pass. -/
def latestOf (nodes : Dict String StepNode) (durations : Dict String ℚ) : Dict String Span :=
  Kahn.pass (latestSpan nodes durations (totalOf nodes durations)) (topologicalSort nodes).reverse

/-- `earliest_start[step_id]`. -/
def earliestStart (nodes : Dict String StepNode) (durations : Dict String ℚ) (id : String) : ℚ :=
  ((earliestOf nodes durations).get? id).elim 0 Span.start

/-- `earliest_finish.get(step_id, 0.0)`. -/
def earliestFinish (nodes : Dict String StepNode) (durations : Dict String ℚ) (id : String) : ℚ :=
  ((earliestOf nodes durations).get? id).elim 0 Span.finish

/-- `latest_finish[step_id]`. -/
def latestFinish (nodes : Dict String StepNode) (durations : Dict String ℚ) (id : String) : ℚ :=
  ((latestOf nodes durations).get? id).elim 0 Span.finish

/-- `latest_start[step_id]`. -/
def latestStart (nodes : Dict String StepNode) (durations : Dict String ℚ) (id : String) : ℚ :=
  ((latestOf nodes durations).get? id).elim 0 Span.start

def calculateCriticalPath (nodes : Dict String StepNode) (stepDurations : Option (Dict String ℚ)) : List String :=
  if nodes.items = [] then []
  else
    let durations := durationsOf nodes stepDurations
    if topologicalSort nodes = [] then []
    else (topologicalSort nodes).filter fun id =>
      |nearest (earliestStart nodes durations id - latestStart nodes durations id)| < epsilon

/-- The sums and the differences of the two passes are floats, and so are those of the starts: none is rounded. -/
structure Unrounded (nodes : Dict String StepNode) (durations : Dict String ℚ) : Prop where
  finish : ∀ id ∈ stepIds nodes, ofRat (earliestStart nodes durations id + durationAt durations id) =
    .finite (earliestStart nodes durations id + durationAt durations id)
  start : ∀ id ∈ stepIds nodes, ofRat (latestFinish nodes durations id - durationAt durations id) =
    .finite (latestFinish nodes durations id - durationAt durations id)
  slack : ∀ id ∈ stepIds nodes, ofRat (earliestStart nodes durations id - latestStart nodes durations id) =
    .finite (earliestStart nodes durations id - latestStart nodes durations id)

/-- The depth of a step, one more than the greatest of its dependencies. -/
def depthAt (nodes : Dict String StepNode) (id : String) (depths : String → Option ℕ) : ℕ :=
  if dependenciesAt nodes id = [] then 0
  else greatest ((dependenciesAt nodes id).map fun dep => (depths dep).getD 0) + 1

def calculateStepDepths (nodes : Dict String StepNode) : Dict String ℕ :=
  if nodes.items = [] then ∅ else Kahn.pass (depthAt nodes) (topologicalSort nodes)

/-! ## The order -/

section Order

variable {nodes : Dict String StepNode} {a b : String}

theorem nodup_stepIds (nodes : Dict String StepNode) : (stepIds nodes).Nodup := nodes.nodup

theorem mem_stepIds_of_dependents (h : b ∈ dependentsAt nodes a) : a ∈ stepIds nodes := by
  cases hget : nodes.get? a with
  | none =>
    rw [dependentsAt, hget] at h
    cases h
  | some n => exact List.mem_map.2 ⟨(a, n), Dict.mem_items_iff.2 hget, rfl⟩

theorem mem_stepIds_of_dependencies (h : a ∈ dependenciesAt nodes b) : b ∈ stepIds nodes := by
  cases hget : nodes.get? b with
  | none =>
    rw [dependenciesAt, hget] at h
    cases h
  | some n => exact List.mem_map.2 ⟨(b, n), Dict.mem_items_iff.2 hget, rfl⟩

/-- **The sort is topological** just when there is no cycle. -/
theorem topologicalSort_perm_iff (hcons : Consistent nodes) : AcyclicSteps nodes ↔
    (topologicalSort nodes).Perm (stepIds nodes) ∧ DependenciesFirst nodes (topologicalSort nodes) := by
  rw [AcyclicSteps, Kahn.sort_perm_iff (nodup_stepIds nodes)]
  refine and_congr_right fun _ => ⟨?_, ?_⟩
  · intro hsorted a ha b hb hab
    exact hsorted a b ⟨ha, hb, (hcons a b).2 hab⟩
  · rintro hfirst a b ⟨ha, hb, hab⟩
    exact hfirst a ha b hb ((hcons a b).1 hab)

variable (hcons : Consistent nodes) (hacyclic : AcyclicSteps nodes)
include hcons hacyclic

theorem mem_topologicalSort : a ∈ topologicalSort nodes ↔ a ∈ stepIds nodes :=
  ((topologicalSort_perm_iff hcons).1 hacyclic).1.mem_iff

theorem nodup_topologicalSort : (topologicalSort nodes).Nodup :=
  ((topologicalSort_perm_iff hcons).1 hacyclic).1.nodup_iff.2 nodes.nodup

theorem pair_of_dependency (h : a ∈ dependenciesAt nodes b) : [a, b].Sublist (topologicalSort nodes) :=
  ((topologicalSort_perm_iff hcons).1 hacyclic).2 a (mem_stepIds_of_dependents ((hcons a b).2 h)) b
    (mem_stepIds_of_dependencies h) h

theorem pair_of_dependent (h : b ∈ dependentsAt nodes a) : [b, a].Sublist (topologicalSort nodes).reverse :=
  (pair_of_dependency hcons hacyclic ((hcons a b).1 h)).reverse

/-! ## The depths -/

/-- **The depth of a step** is the number of edges on the longest path from a root to it, which is listed here from the
step back to the root. -/
theorem calculateStepDepths_get? (ha : a ∈ stepIds nodes) : ∃ depth, (calculateStepDepths nodes).get? a = some depth ∧
    IsGreatest {n | ∃ path, IsPath (dependenciesAt nodes) (a :: path) ∧ path.length = n} depth := by
  have hne : nodes.items ≠ [] := by
    intro hnil
    rw [stepIds, hnil] at ha
    cases ha
  have hget : ∀ b ∈ topologicalSort nodes, (calculateStepDepths nodes).get? b =
      some (depthAt nodes b (calculateStepDepths nodes).get?) := by
    rw [calculateStepDepths, if_neg hne]
    refine Kahn.pass_get? (nodup_topologicalSort hcons hacyclic) fun b _ get get' hsame => ?_
    rw [depthAt, depthAt, List.map_congr_left fun dep hdep =>
      congrArg (Option.getD · 0) (hsame dep (pair_of_dependency hcons hacyclic hdep))]
  have ha := (mem_topologicalSort hcons hacyclic).2 ha
  refine ⟨_, hget a ha, ?_⟩
  set depth : String → ℕ := fun b => depthAt nodes b (calculateStepDepths nodes).get? with hdepth
  have hdeps : ∀ b, ((dependenciesAt nodes b).map fun dep => ((calculateStepDepths nodes).get? dep).getD 0) =
      (dependenciesAt nodes b).map depth := by
    refine fun b => List.map_congr_left fun dep hdep => ?_
    have hmem := (pair_of_dependency hcons hacyclic hdep).subset List.mem_cons_self
    rw [hget dep hmem]
    rfl
  have heq : ∀ b ∈ topologicalSort nodes,
      depth b + 1 = 1 + greatest ((dependenciesAt nodes b).map fun dep => depth dep + 1) := by
    intro b _
    by_cases hnil : dependenciesAt nodes b = []
    · simp [hdepth, depthAt, hnil, greatest]
    · have hmap : (dependenciesAt nodes b).map depth ≠ [] := fun h => hnil (List.map_eq_nil_iff.1 h)
      have hgreatest := LongestPath.greatest_map_add hmap 1
      rw [List.map_map] at hgreatest
      have hb : depth b = greatest ((dependenciesAt nodes b).map depth) + 1 := by
        rw [← hdeps]
        exact if_neg hnil
      rw [hb, ← hgreatest, Nat.add_comm]
      rfl
  obtain ⟨⟨path, hpath, hlength⟩, hmax⟩ := LongestPath.isGreatest_of_eq (nodup_topologicalSort hcons hacyclic)
    (fun b _ c => pair_of_dependency hcons hacyclic) heq a ha
  have hweight : ∀ path : List String, weight (fun _ => 1) (a :: path) = path.length + 1 := by
    intro path
    rw [weight, List.map_const', List.sum_replicate, List.length_cons, nsmul_one, Nat.cast_id]
  rw [hweight] at hlength
  refine ⟨⟨path, hpath, Nat.succ.inj hlength⟩, ?_⟩
  rintro _ ⟨path', hpath', rfl⟩
  exact Nat.le_of_succ_le_succ (hmax ⟨path', hpath', hweight path'⟩)

/-! ## The critical steps -/

variable {durations : Dict String ℚ}

/-- What is left of the total duration at the latest start of a step. -/
def remaining (nodes : Dict String StepNode) (durations : Dict String ℚ) (id : String) : ℚ :=
  totalOf nodes durations - ((latestOf nodes durations).get? id).elim (totalOf nodes durations) Span.start

theorem earliestOf_get? (durations : Dict String ℚ) (ha : a ∈ topologicalSort nodes) :
    (earliestOf nodes durations).get? a =
    some (earliestSpan nodes durations a (earliestOf nodes durations).get?) := by
  refine Kahn.pass_get? (nodup_topologicalSort hcons hacyclic) (fun b _ get get' hsame => ?_) a ha
  rw [earliestSpan, earliestSpan, List.map_congr_left fun dep hdep =>
    congrArg (Option.elim · 0 Span.finish) (hsame dep (pair_of_dependency hcons hacyclic hdep))]

theorem latestOf_get? (ha : a ∈ topologicalSort nodes) : (latestOf nodes durations).get? a =
    some (latestSpan nodes durations (totalOf nodes durations) a (latestOf nodes durations).get?) := by
  refine Kahn.pass_get? (List.nodup_reverse.2 (nodup_topologicalSort hcons hacyclic)) (fun b _ get get' hsame => ?_) a
    (List.mem_reverse.2 ha)
  rw [latestSpan, latestSpan, List.map_congr_left fun dep hdep =>
    congrArg (Option.elim · (totalOf nodes durations) Span.start)
      (hsame dep (pair_of_dependent hcons hacyclic hdep))]

theorem start_eq (ha : a ∈ topologicalSort nodes) :
    earliestStart nodes durations a = greatest ((dependenciesAt nodes a).map (earliestFinish nodes durations)) := by
  rw [earliestStart, earliestOf_get? hcons hacyclic durations ha]
  rfl

theorem earliestFinish_eq (h : Unrounded nodes durations) (ha : a ∈ topologicalSort nodes) :
    earliestFinish nodes durations a =
      durationAt durations a + greatest ((dependenciesAt nodes a).map (earliestFinish nodes durations)) := by
  have hsum := nearest_of_ofRat (h.finish a ((mem_topologicalSort hcons hacyclic).1 ha))
  rw [start_eq hcons hacyclic ha] at hsum
  rw [add_comm, ← hsum, earliestFinish, earliestOf_get? hcons hacyclic durations ha]
  rfl

theorem latestStart_eq (h : Unrounded nodes durations) (ha : a ∈ topologicalSort nodes) :
    latestStart nodes durations a = latestFinish nodes durations a - durationAt durations a := by
  rw [← nearest_of_ofRat (h.start a ((mem_topologicalSort hcons hacyclic).1 ha)), latestStart, latestFinish,
    latestOf_get? hcons hacyclic ha]
  rfl

theorem remaining_eq_sub (ha : a ∈ topologicalSort nodes) :
    remaining nodes durations a = totalOf nodes durations - latestStart nodes durations a := by
  rw [remaining, latestStart, latestOf_get? hcons hacyclic ha]
  rfl

theorem remaining_eq (h : Unrounded nodes durations) (ha : a ∈ topologicalSort nodes) : remaining nodes durations a =
    durationAt durations a + greatest ((dependentsAt nodes a).map (remaining nodes durations)) := by
  have hleft := LongestPath.sub_min?_getD (totalOf nodes durations) ((dependentsAt nodes a).map fun dep =>
    ((latestOf nodes durations).get? dep).elim (totalOf nodes durations) Span.start)
  rw [List.map_map] at hleft
  have hfinish : totalOf nodes durations - latestFinish nodes durations a =
      greatest ((dependentsAt nodes a).map (remaining nodes durations)) := by
    rw [latestFinish, latestOf_get? hcons hacyclic ha]
    exact hleft
  rw [remaining_eq_sub hcons hacyclic ha, latestStart_eq hcons hacyclic h ha, ← hfinish]
  ring

theorem start_sub_start (h : Unrounded nodes durations) (ha : a ∈ topologicalSort nodes) :
    earliestStart nodes durations a - latestStart nodes durations a =
      earliestFinish nodes durations a + remaining nodes durations a - durationAt durations a -
        totalOf nodes durations := by
  rw [earliestFinish_eq hcons hacyclic h ha, remaining_eq_sub hcons hacyclic ha, start_eq hcons hacyclic ha]
  ring

theorem isGreatest_earliestFinish (h : Unrounded nodes durations) (ha : a ∈ stepIds nodes) : IsGreatest
    {x | ∃ rest, IsPath (dependenciesAt nodes) (a :: rest) ∧ weight (durationAt durations) (a :: rest) = x}
    (earliestFinish nodes durations a) :=
  LongestPath.isGreatest_of_eq (nodup_topologicalSort hcons hacyclic)
    (fun _ _ _ => pair_of_dependency hcons hacyclic) (fun _ => earliestFinish_eq hcons hacyclic h) a
    ((mem_topologicalSort hcons hacyclic).2 ha)

theorem isGreatest_remaining (h : Unrounded nodes durations) (ha : a ∈ stepIds nodes) : IsGreatest
    {x | ∃ rest, IsPath (dependentsAt nodes) (a :: rest) ∧ weight (durationAt durations) (a :: rest) = x}
    (remaining nodes durations a) :=
  LongestPath.isGreatest_of_eq (List.nodup_reverse.2 (nodup_topologicalSort hcons hacyclic))
    (fun _ _ _ => pair_of_dependent hcons hacyclic)
    (fun _ hb => remaining_eq hcons hacyclic h (List.mem_reverse.1 hb)) a
    (List.mem_reverse.2 ((mem_topologicalSort hcons hacyclic).2 ha))

theorem totalOf_eq : totalOf nodes durations = greatest ((stepIds nodes).map (earliestFinish nodes durations)) := by
  refine LongestPath.greatest_congr fun x => ?_
  simp only [List.mem_map]
  constructor
  · rintro ⟨⟨a, span⟩, he, rfl⟩
    have hget := Dict.mem_items_iff.1 he
    have ha : a ∈ topologicalSort nodes := by
      by_contra hnot
      rw [earliestOf, Kahn.pass_get?_of_not_mem hnot] at hget
      cases hget
    refine ⟨a, (mem_topologicalSort hcons hacyclic).1 ha, ?_⟩
    rw [earliestFinish, hget]
    rfl
  · rintro ⟨a, ha, rfl⟩
    have hget := earliestOf_get? hcons hacyclic durations ((mem_topologicalSort hcons hacyclic).2 ha)
    refine ⟨(a, _), Dict.mem_items_iff.2 hget, ?_⟩
    rw [earliestFinish, hget]
    rfl

/-- **The critical steps** are those on a path from a root to a leaf that falls short of every other by less than
`epsilon`, where nothing is rounded. -/
theorem mem_calculateCriticalPath_iff {stepDurations : Option (Dict String ℚ)}
    (h : Unrounded nodes (durationsOf nodes stepDurations))
    (hnonneg : ∀ id, 0 ≤ durationAt (durationsOf nodes stepDurations) id) :
    a ∈ calculateCriticalPath nodes stepDurations ↔
      ∃ path, RootToLeaf nodes path ∧ a ∈ path ∧ ∀ path', RootToLeaf nodes path' →
        weight (durationAt (durationsOf nodes stepDurations)) path' <
          weight (durationAt (durationsOf nodes stepDurations)) path + epsilon := by
  set durations := durationsOf nodes stepDurations
  have hmem : a ∈ calculateCriticalPath nodes stepDurations ↔ a ∈ stepIds nodes ∧
      |nearest (earliestStart nodes durations a - latestStart nodes durations a)| < epsilon := by
    rw [calculateCriticalPath, ← mem_topologicalSort hcons hacyclic]
    split_ifs with hitems hsorted
    · rw [mem_topologicalSort hcons hacyclic, stepIds, hitems]
      simp
    · rw [hsorted]
      simp
    · rw [List.mem_filter, decide_eq_true_iff]
  by_cases ha : a ∈ stepIds nodes
  · have hnext : ∀ b ∈ stepIds nodes, ∀ c ∈ dependentsAt nodes b, c ∈ stepIds nodes :=
      fun b _ c hc => mem_stepIds_of_dependencies ((hcons b c).1 hc)
    have hprev : ∀ b ∈ stepIds nodes, ∀ c ∈ dependenciesAt nodes b, c ∈ stepIds nodes :=
      fun b _ c hc => mem_stepIds_of_dependents ((hcons c b).2 hc)
    have hf := fun b (hb : b ∈ stepIds nodes) => isGreatest_remaining hcons hacyclic h hb
    have hg := fun b (hb : b ∈ stepIds nodes) => isGreatest_earliestFinish hcons hacyclic h hb
    have hthrough := LongestPath.isGreatest_through hcons hnext hprev hf hg ha
    have htotal := LongestPath.isGreatest_fullPath hcons hnext hprev hf hg (fun b _ => hnonneg b)
      (List.ne_nil_of_mem ha)
    rw [← totalOf_eq hcons hacyclic] at htotal
    rw [hmem, and_iff_right ha, nearest_of_ofRat (h.slack a ha),
      start_sub_start hcons hacyclic h ((mem_topologicalSort hcons hacyclic).2 ha)]
    generalize earliestFinish nodes durations a + remaining nodes durations a - durationAt durations a = through
      at hthrough ⊢
    obtain ⟨⟨path, hpath, hin, rfl⟩, hmax⟩ := hthrough
    obtain ⟨⟨longest, hlongest, htop⟩, hbound⟩ := htotal
    have hle : weight (durationAt durations) path ≤ totalOf nodes durations := hbound ⟨path, hpath, rfl⟩
    rw [abs_sub_comm, abs_of_nonneg (sub_nonneg.2 hle), sub_lt_iff_lt_add']
    constructor
    · intro hlt
      exact ⟨path, hpath, hin, fun path' hpath' => (hbound ⟨path', hpath', rfl⟩).trans_lt hlt⟩
    · rintro ⟨path', hpath', hin', hall⟩
      have hlt : totalOf nodes durations < weight (durationAt durations) path' + epsilon :=
        htop ▸ hall longest hlongest
      have hle' : weight (durationAt durations) path' ≤ weight (durationAt durations) path :=
        hmax ⟨path', hpath', hin', rfl⟩
      linarith
  · refine iff_of_false (fun h => ha (hmem.1 h).1) ?_
    rintro ⟨path, hpath, hin, -⟩
    exact ha (hpath.inside a hin)

end Order

/-! ## Durations -/

theorem durationAt_nonneg {stepDurations : Option (Dict String ℚ)}
    (hnonneg : ∀ d ∈ stepDurations, ∀ e ∈ d.items, 0 ≤ e.2) (nodes : Dict String StepNode) (id : String) :
    0 ≤ durationAt (durationsOf nodes stepDurations) id := by
  rw [durationAt, Dict.getD_eq, durationsOf]
  cases hgiven : stepDurations.filter (·.items ≠ []) with
  | none =>
    rw [Option.getD_none, Kahn.get?_foldl_set]
    split_ifs <;> exact zero_le_one
  | some d =>
    rw [Option.getD_some]
    cases hget : d.get? id with
    | none => exact zero_le_one
    | some q =>
      exact hnonneg d (Option.eq_some_of_filter_eq_some hgiven) (id, q) (Dict.mem_items_iff.2 hget)

/-- **The critical path, the sort and the depths** of a consistent graph. -/
theorem criticalPath_spec (nodes : Dict String StepNode) (hcons : Consistent nodes) :
    (AcyclicSteps nodes ↔
      (topologicalSort nodes).Perm (stepIds nodes) ∧ DependenciesFirst nodes (topologicalSort nodes)) ∧
    (AcyclicSteps nodes →
      (∀ stepDurations : Option (Dict String ℚ), (∀ d ∈ stepDurations, ∀ e ∈ d.items, 0 ≤ e.2) →
        (calculateCriticalPath nodes stepDurations).Sublist (topologicalSort nodes) ∧
        (Unrounded nodes (durationsOf nodes stepDurations) → ∀ id, id ∈ calculateCriticalPath nodes stepDurations ↔
          ∃ path, RootToLeaf nodes path ∧ id ∈ path ∧ ∀ path', RootToLeaf nodes path' →
            weight (durationAt (durationsOf nodes stepDurations)) path' <
              weight (durationAt (durationsOf nodes stepDurations)) path + epsilon)) ∧
      ∀ id ∈ stepIds nodes, ∃ depth, (calculateStepDepths nodes).get? id = some depth ∧
        IsGreatest {n | ∃ path, IsPath (dependenciesAt nodes) (id :: path) ∧ path.length = n} depth) := by
  refine ⟨topologicalSort_perm_iff hcons, fun hacyclic => ⟨fun stepDurations hnonneg => ⟨?_, fun h id => ?_⟩,
    fun id => ?_⟩⟩
  · rw [calculateCriticalPath]
    split_ifs
    · exact List.nil_sublist _
    · exact List.nil_sublist _
    · exact List.filter_sublist
  · exact mem_calculateCriticalPath_iff hcons hacyclic h (durationAt_nonneg hnonneg nodes)
  · exact calculateStepDepths_get? hcons hacyclic

/-! ## Two steps side by side -/

/-- Two steps that depend on nothing. -/
def sideBySide : Dict String StepNode :=
  ((∅ : Dict String StepNode).set "a" ⟨plainStep "a" ∅ ∅, .ready, [], []⟩).set "b" ⟨plainStep "b" ∅ ∅, .ready, [], []⟩

/-- The second is shorter by less than a tenth of a nanosecond. -/
def almostEqual : Dict String ℚ := ((∅ : Dict String ℚ).set "a" 1).set "b" (1 - 1 / 2 ^ 34)

theorem sideBySide_edgeless {id : String} {n : StepNode} (h : sideBySide.get? id = some n) :
    n.dependencies = [] ∧ n.dependents = [] := by
  have hall : ∀ e ∈ sideBySide.items, e.2.dependencies = [] ∧ e.2.dependents = [] := by decide
  exact hall (id, n) (Dict.mem_items_iff.2 h)

theorem sideBySide_dependents (id : String) : dependentsAt sideBySide id = [] := by
  rw [dependentsAt]
  cases h : sideBySide.get? id with
  | none => rfl
  | some n => exact (sideBySide_edgeless h).2

theorem sideBySide_dependencies (id : String) : dependenciesAt sideBySide id = [] := by
  rw [dependenciesAt]
  cases h : sideBySide.get? id with
  | none => rfl
  | some n => exact (sideBySide_edgeless h).1

theorem sideBySide_consistent : Consistent sideBySide := by
  intro a b
  rw [sideBySide_dependents, sideBySide_dependencies]
  simp

theorem sideBySide_acyclic : AcyclicSteps sideBySide := by
  intro a hcycle
  obtain ⟨b, ⟨-, -, hab⟩, -⟩ := Relation.TransGen.head'_iff.1 hcycle
  rw [sideBySide_dependents] at hab
  cases hab

theorem sideBySide_rootToLeaf {before after : List String} {id : String} :
    RootToLeaf sideBySide (before ++ id :: after) ↔ id ∈ stepIds sideBySide ∧ before = [] ∧ after = [] := by
  rw [RootToLeaf, LongestPath.isFullPath_iff sideBySide_consistent]
  constructor
  · rintro ⟨hinside, hbefore, hafter⟩
    refine ⟨hinside id (List.mem_append_right _ List.mem_cons_self), ?_,
      hafter.eq_nil (sideBySide_dependents id)⟩
    exact List.reverse_eq_nil_iff.1 (hbefore.eq_nil (sideBySide_dependencies id))
  · rintro ⟨hid, rfl, rfl⟩
    refine ⟨fun b hb => List.mem_singleton.1 hb ▸ hid, ?_, ?_⟩
    · exact LongestPath.isPath_singleton (sideBySide_dependencies id)
    · exact LongestPath.isPath_singleton (sideBySide_dependents id)

theorem sideBySide_unrounded : Unrounded sideBySide (durationsOf sideBySide (some almostEqual)) :=
  ⟨by decide +kernel, by decide +kernel, by decide +kernel⟩

theorem criticalPath_sideBySide :
    (topologicalSort sideBySide).Perm (stepIds sideBySide) ∧
    ("b" ∈ calculateCriticalPath sideBySide (some almostEqual) ↔
      ∃ path, RootToLeaf sideBySide path ∧ "b" ∈ path ∧ ∀ path', RootToLeaf sideBySide path' →
        weight (durationAt (durationsOf sideBySide (some almostEqual))) path' <
          weight (durationAt (durationsOf sideBySide (some almostEqual))) path + epsilon) ∧
    ∃ depth, (calculateStepDepths sideBySide).get? "b" = some depth ∧
      IsGreatest {n | ∃ path, IsPath (dependenciesAt sideBySide) ("b" :: path) ∧ path.length = n} depth := by
  obtain ⟨hsort, hrest⟩ := criticalPath_spec sideBySide sideBySide_consistent
  obtain ⟨hcritical, hdepth⟩ := hrest sideBySide_acyclic
  have hnonneg : ∀ d ∈ some almostEqual, ∀ e ∈ d.items, 0 ≤ e.2 := by
    intro d hd
    obtain rfl := Option.some.inj hd
    decide +kernel
  exact ⟨(hsort.1 sideBySide_acyclic).1, (hcritical (some almostEqual) hnonneg).2 sideBySide_unrounded "b",
    hdepth "b" (by decide)⟩

/-- The shorter step counts as critical, though its path is not the longest. -/
theorem shorter_critical : Consistent sideBySide ∧ AcyclicSteps sideBySide ∧
    (∀ e ∈ almostEqual.items, 0 ≤ e.2) ∧ "b" ∈ calculateCriticalPath sideBySide (some almostEqual) ∧
    ¬ ∃ path, RootToLeaf sideBySide path ∧ "b" ∈ path ∧ ∀ path', RootToLeaf sideBySide path' →
      weight (durationAt (durationsOf sideBySide (some almostEqual))) path' ≤
        weight (durationAt (durationsOf sideBySide (some almostEqual))) path := by
  refine ⟨sideBySide_consistent, sideBySide_acyclic, by decide +kernel, by decide +kernel, ?_⟩
  rintro ⟨path, hpath, hin, hall⟩
  obtain ⟨before, after, rfl⟩ := List.append_of_mem hin
  obtain ⟨-, rfl, rfl⟩ := sideBySide_rootToLeaf.1 hpath
  have hle := hall ([] ++ ["a"]) (sideBySide_rootToLeaf.2 ⟨by decide, rfl, rfl⟩)
  revert hle
  decide +kernel

end LlmGateway.Pipeline
