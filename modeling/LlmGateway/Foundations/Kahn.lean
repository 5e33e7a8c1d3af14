import Mathlib.Algebra.BigOperators.Group.List.Basic
import Mathlib.Algebra.GroupWithZero.Nat
import Mathlib.Data.List.Nodup
import Mathlib.Data.Set.Finite.List
import Mathlib.Logic.Relation
import Mathlib.Order.WellFounded
import LlmGateway.Foundations.Dict

/-!
# Kahn's algorithm

A topological sort: the nodes that no edge leads to come first, and a node follows when the edges from the nodes so far
are gone and none is left that leads to it. The sort gives all nodes, each in front of those that its edges lead to,
just when there is no cycle (`sort_perm_iff`).

A list has `a` in front of `b` when `[a, b]` is a sublist of it. `order_induction` is the induction along a list, and
`pass_get?` the rule for a pass along a list that computes a value for each node from those of nodes in front of it: in
the end all values fit together.
-/

namespace LlmGateway.Kahn

variable {α : Type*} {l : List α} {a b c : α}

/-! ## Orders -/

theorem pair_sublist_iff : [a, b].Sublist l ↔ ∃ before after, l = before ++ after ∧ a ∈ before ∧ b ∈ after := by
  simp only [List.cons_sublist_iff, List.nil_sublist, and_true]
  constructor
  · rintro ⟨before, after, rfl, ha, front, back, rfl, hb⟩
    exact ⟨before, front ++ back, rfl, ha, List.mem_append_left _ hb⟩
  · rintro ⟨before, after, rfl, ha, hb⟩
    exact ⟨before, after, rfl, ha, after, [], (List.append_nil _).symm, hb⟩

theorem disjoint_of_nodup {before after : List α} (hnodup : (before ++ after).Nodup) (hbefore : a ∈ before)
    (hafter : a ∈ after) : False :=
  (List.nodup_append'.1 hnodup).2.2 hbefore hafter

theorem pair_trans (hnodup : l.Nodup) (hab : [a, b].Sublist l) (hbc : [b, c].Sublist l) : [a, c].Sublist l := by
  obtain ⟨before, after, rfl, ha, hb⟩ := pair_sublist_iff.1 hab
  obtain ⟨before', after', heq, hb', hc⟩ := pair_sublist_iff.1 hbc
  obtain ⟨between, rfl, rfl⟩ | ⟨between, rfl, rfl⟩ := List.append_eq_append_iff.1 heq
  · exact pair_sublist_iff.2 ⟨before, _, rfl, ha, List.mem_append_right _ hc⟩
  · exact (disjoint_of_nodup hnodup (List.mem_append_left _ hb') hb).elim

theorem mem_of_pair {before after : List α} (hnodup : (before ++ b :: after).Nodup)
    (hab : [a, b].Sublist (before ++ b :: after)) : a ∈ before := by
  obtain ⟨front, back, heq, ha, hb⟩ := pair_sublist_iff.1 hab
  obtain ⟨between, rfl, hback⟩ | ⟨between, rfl, -⟩ := List.append_eq_append_iff.1 heq
  · cases between with
    | nil => rwa [List.append_nil] at ha
    | cons d between =>
      obtain ⟨rfl, rfl⟩ := List.cons.inj hback
      exact (disjoint_of_nodup (heq ▸ hnodup) (List.mem_append_right _ List.mem_cons_self) hb).elim
  · exact List.mem_append_left _ ha

theorem order_induction {P : α → Prop} (hnodup : l.Nodup)
    (step : ∀ b ∈ l, (∀ a, [a, b].Sublist l → P a) → P b) : ∀ b ∈ l, P b := by
  have hall : ∀ before after, l = before ++ after → ∀ b ∈ before, P b := by
    intro before
    induction before using List.reverseRecOn with
    | nil =>
      intro _ _ b hb
      cases hb
    | append_singleton before v ih =>
      intro after heq b hb
      rw [List.append_assoc, List.singleton_append] at heq
      obtain hb | hb := List.mem_append.1 hb
      · exact ih _ heq b hb
      · obtain rfl := List.mem_singleton.1 hb
        refine step b (heq ▸ List.mem_append_right _ List.mem_cons_self) fun a hab => ?_
        exact ih _ heq a (mem_of_pair (heq ▸ hnodup) (heq ▸ hab))
  exact fun b hb => hall l [] (List.append_nil l).symm b hb

/-! ## Passes -/

section Pass

variable [DecidableEq α] {V : Type*}

/-- A pass along a list: each node gets the value that `value` computes from those that are there. -/
def pass (value : α → (α → Option V) → V) (order : List α) : Dict α V :=
  order.foldl (fun d v => d.set v (value v d.get?)) ∅

variable {value : α → (α → Option V) → V} {before after : List α}

theorem pass_append_singleton (v : α) :
    pass value (before ++ [v]) = (pass value before).set v (value v (pass value before).get?) := by
  rw [pass, List.foldl_append]
  rfl

theorem pass_get?_of_not_mem (h : a ∉ before) : (pass value before).get? a = none := by
  induction before using List.reverseRecOn with
  | nil => rfl
  | append_singleton before v ih =>
    rw [List.mem_append, List.mem_singleton, not_or] at h
    rw [pass_append_singleton, Dict.get?_set_ne _ h.2, ih h.1]

theorem pass_append_get? (hnodup : (before ++ after).Nodup) (ha : a ∈ before) :
    (pass value (before ++ after)).get? a = (pass value before).get? a := by
  induction after using List.reverseRecOn with
  | nil => rw [List.append_nil]
  | append_singleton after v ih =>
    rw [← List.append_assoc] at hnodup ⊢
    have hne : a ≠ v := by
      rintro rfl
      exact disjoint_of_nodup hnodup (List.mem_append_left _ ha) (List.mem_singleton_self _)
    rw [pass_append_singleton, Dict.get?_set_ne _ hne, ih (List.nodup_append'.1 hnodup).1]

/-- **The values of a pass** fit together: each is what `value` computes from all of them, if that asks for nodes in
front only. -/
theorem pass_get? (hnodup : l.Nodup)
    (hlocal : ∀ b ∈ l, ∀ get get' : α → Option V, (∀ a, [a, b].Sublist l → get a = get' a) →
      value b get = value b get') :
    ∀ b ∈ l, (pass value l).get? b = some (value b (pass value l).get?) := by
  intro b hb
  obtain ⟨before, after, heq⟩ := List.append_of_mem hb
  have hsplit : l = (before ++ [b]) ++ after := by rw [heq, List.append_assoc, List.singleton_append]
  have hlast : b ∈ before ++ [b] := List.mem_append_right _ (List.mem_singleton_self b)
  have hhere : (pass value l).get? b = some (value b (pass value before).get?) := by
    rw [hsplit] at hnodup ⊢
    rw [pass_append_get? hnodup hlast, pass_append_singleton, Dict.get?_set_self]
  rw [hhere]
  refine congrArg some (hlocal b hb _ _ fun a hab => ?_)
  have ha : a ∈ before := by
    rw [heq] at hab hnodup
    exact mem_of_pair hnodup hab
  rw [heq] at hnodup ⊢
  exact (pass_append_get? hnodup ha).symm

end Pass

/-! ## Graphs -/

section Graphs

variable (next : α → List α)

/-- An edge between nodes. -/
def Edge (nodes : List α) (a b : α) : Prop := a ∈ nodes ∧ b ∈ nodes ∧ b ∈ next a

/-- There is no cycle. -/
def Acyclic (nodes : List α) : Prop := ∀ a, ¬ Relation.TransGen (Edge next nodes) a a

/-- Each node is in front of those that its edges lead to. -/
def Sorted (nodes order : List α) : Prop := ∀ a b, Edge next nodes a b → [a, b].Sublist order

/-- All nodes with edges to a node of the list are in front of it. -/
def Fed (nodes result : List α) : Prop := ∀ b ∈ result, ∀ a ∈ nodes, b ∈ next a → [a, b].Sublist result

variable {next} {nodes order result : List α}

theorem Fed.append_singleton {v : α} (h : Fed next nodes result) (hv : ∀ a ∈ nodes, v ∈ next a → a ∈ result) :
    Fed next nodes (result ++ [v]) := by
  intro b hb a ha hab
  obtain hb | hb := List.mem_append.1 hb
  · exact (h b hb a ha hab).trans (List.sublist_append_left _ _)
  · obtain rfl := List.mem_singleton.1 hb
    exact pair_sublist_iff.2 ⟨result, [b], rfl, hv a ha hab, List.mem_singleton_self b⟩

theorem Sorted.pair_of_transGen (hsorted : Sorted next nodes order) (hnodup : order.Nodup)
    (hab : Relation.TransGen (Edge next nodes) a b) : [a, b].Sublist order := by
  induction hab with
  | single hab => exact hsorted a _ hab
  | tail _ hbc ih => exact pair_trans hnodup ih (hsorted _ _ hbc)

theorem Sorted.acyclic (hsorted : Sorted next nodes order) (hnodup : order.Nodup) :
    Acyclic next nodes :=
  fun a ha => List.nodup_iff_sublist.1 hnodup a (hsorted.pair_of_transGen hnodup ha)

theorem Acyclic.exists_first (h : Acyclic next nodes) {P : α → Prop} (hP : ∃ a ∈ nodes, P a) :
    ∃ b ∈ nodes, P b ∧ ∀ a, Edge next nodes a b → ¬ P a := by
  let R : {a // a ∈ nodes} → {a // a ∈ nodes} → Prop := fun a b => Relation.TransGen (Edge next nodes) a b
  have : IsTrans {a // a ∈ nodes} R := ⟨fun _ _ _ => Relation.TransGen.trans⟩
  have : Std.Irrefl R := ⟨fun a => h a⟩
  have : Finite {a // a ∈ nodes} := nodes.finite_toSet.to_subtype
  have hwf : WellFounded R := Finite.wellFounded_of_trans_of_irrefl R
  obtain ⟨a, ha, hPa⟩ := hP
  obtain ⟨⟨b, hb⟩, hPb, hmin⟩ := hwf.has_min {a | P a.1} ⟨⟨a, ha⟩, hPa⟩
  exact ⟨b, hb, hPb, fun c hcb hPc => hmin ⟨c, hcb.1⟩ hPc (.single hcb)⟩

end Graphs

/-! ## The sort -/

section Sorting

variable [DecidableEq α] (next : α → List α)

/-- An edge, counted at the node that it leads to. -/
def countEdge (inDegree : Dict α ℤ) (v : α) : Dict α ℤ :=
  (inDegree.get? v).elim inDegree fun n => inDegree.set v (n + 1)

/-- The numbers of edges that lead to the nodes. -/
def inDegrees (nodes : List α) : Dict α ℤ :=
  nodes.foldl (fun d a => (next a).foldl countEdge d) (nodes.foldl (fun d a => d.set a 0) ∅)

/-- An edge is gone, and the node that it led to may follow. -/
def release (s : Dict α ℤ × List α) (v : α) : Dict α ℤ × List α :=
  (s.1.get? v).elim s fun n => (s.1.set v (n - 1), if n - 1 = 0 then s.2 ++ [v] else s.2)

/-- The loop, for `fuel` rounds at most. -/
def loop : ℕ → Dict α ℤ → List α → List α → List α
  | 0, _, _, result => result
  | _ + 1, _, [], result => result
  | fuel + 1, inDegree, v :: queue, result =>
    let s := (next v).foldl release (inDegree, queue)
    loop fuel s.1 s.2 (result ++ [v])

/-- Kahn's algorithm. -/
def sort (nodes : List α) : List α :=
  let inDegree := inDegrees next nodes
  let result := loop next nodes.length inDegree ((inDegree.items.filter fun e => e.2 = 0).map Prod.fst) []
  if result.length ≠ nodes.length then [] else result

/-- The edges to `b` from the nodes that are left. -/
def left (nodes result : List α) (b : α) : ℕ := ((nodes.filter (· ∉ result)).map fun a => (next a).count b).sum

variable {next} {nodes result queue : List α} {d : Dict α ℤ}

/-! ### Degrees -/

theorem get?_foldl_countEdge (targets : List α) (d : Dict α ℤ) (b : α) :
    (targets.foldl countEdge d).get? b = (d.get? b).map (· + (targets.count b : ℤ)) := by
  induction targets generalizing d with
  | nil => simp
  | cons v targets ih =>
    rw [List.foldl_cons, ih, countEdge]
    cases hv : d.get? v with
    | none =>
      by_cases hb : b = v
      · simp [hb, hv]
      · simp [List.count_cons_of_ne (Ne.symm hb)]
    | some n =>
      by_cases hb : b = v
      · subst hb
        simp [hv]
        omega
      · simp [Dict.get?_set_ne _ hb, List.count_cons_of_ne (Ne.symm hb)]

theorem get?_foldl_set {V : Type*} (x : V) (d : Dict α V) (b : α) :
    (nodes.foldl (fun d a => d.set a x) d).get? b = if b ∈ nodes then some x else d.get? b := by
  induction nodes generalizing d with
  | nil => rfl
  | cons v nodes ih =>
    rw [List.foldl_cons, ih]
    by_cases hb : b = v
    · simp [hb]
    · simp [hb, Dict.get?_set_ne _ hb]

theorem get?_inDegrees (next : α → List α) (nodes : List α) (b : α) :
    (inDegrees next nodes).get? b = if b ∈ nodes then some (left next nodes [] b : ℤ) else none := by
  have hfold : ∀ (from' : List α) (d : Dict α ℤ),
      (from'.foldl (fun d a => (next a).foldl countEdge d) d).get? b =
        (d.get? b).map (· + ((from'.map fun a => (next a).count b).sum : ℤ)) := by
    intro from'
    induction from' with
    | nil => simp
    | cons a from' ih =>
      intro d
      rw [List.foldl_cons, ih, get?_foldl_countEdge]
      cases d.get? b with
      | none => rfl
      | some n => simp [Int.add_assoc]
  rw [inDegrees, hfold, get?_foldl_set, left]
  by_cases hb : b ∈ nodes <;> simp [hb]

theorem left_append_singleton {v : α} (hnodup : nodes.Nodup) (hv : v ∈ nodes) (hresult : v ∉ result) (b : α) :
    left next nodes result b = left next nodes (result ++ [v]) b + (next v).count b := by
  have hmem : v ∈ nodes.filter (· ∉ result) := List.mem_filter.2 ⟨hv, by simpa using hresult⟩
  have herase : nodes.filter (· ∉ result ++ [v]) = (nodes.filter (· ∉ result)).erase v := by
    rw [(hnodup.filter _).erase_eq_filter, List.filter_filter]
    refine List.filter_congr fun a _ => ?_
    by_cases ha : a = v <;> simp [ha]
  rw [left, left, herase, ← List.sum_map_erase _ hmem, Nat.add_comm]

theorem left_eq_zero_iff : left next nodes result b = 0 ↔ ∀ a ∈ nodes, a ∉ result → b ∉ next a := by
  rw [left, List.sum_eq_zero_iff_forall_eq_nat]
  constructor
  · intro h a ha hresult
    have hzero := h _ (List.mem_map.2 ⟨a, List.mem_filter.2 ⟨ha, by simpa using hresult⟩, rfl⟩)
    exact List.count_eq_zero.1 hzero
  · intro h n hn
    obtain ⟨a, ha, rfl⟩ := List.mem_map.1 hn
    obtain ⟨ha, hresult⟩ := List.mem_filter.1 ha
    exact List.count_eq_zero.2 (h a ha (by simpa using hresult))

/-! ### The loop -/

/-- What the loop keeps, where `edges` are the edges of the last node that are still there. -/
structure Inv (next : α → List α) (nodes : List α) (d : Dict α ℤ) (queue result edges : List α) : Prop where
  nodup : (result ++ queue).Nodup
  subset : ∀ v ∈ result ++ queue, v ∈ nodes
  degree : ∀ b, d.get? b = if b ∈ nodes then some ((left next nodes result b + edges.count b : ℕ) : ℤ) else none
  free : ∀ b ∈ nodes, b ∈ result ++ queue ↔ left next nodes result b + edges.count b = 0

/-- An edge that is taken off keeps the invariant of the loop. -/
theorem Inv.release {edges : List α} {v : α} (h : Inv next nodes d queue result (v :: edges)) :
    Inv next nodes (release (d, queue) v).1 (release (d, queue) v).2 result edges := by
  by_cases hv : v ∈ nodes
  · have hget := h.degree v
    rw [if_pos hv] at hget
    set n := left next nodes result v + edges.count v with hn
    have hsucc : left next nodes result v + (v :: edges).count v = n + 1 := by
      rw [List.count_cons_self]
      rfl
    have hbusy : v ∉ result ++ queue := by
      rw [h.free v hv, hsucc]
      exact Nat.succ_ne_zero n
    rw [hsucc] at hget
    have hcount : ∀ b, b ≠ v → (v :: edges).count b = edges.count b :=
      fun b hb => List.count_cons_of_ne hb.symm
    have hdegree : ∀ b, (d.set v (((n + 1 : ℕ) : ℤ) - 1)).get? b =
        if b ∈ nodes then some ((left next nodes result b + edges.count b : ℕ) : ℤ) else none := by
      intro b
      by_cases hb : b = v
      · subst hb
        rw [Dict.get?_set_self, if_pos hv, ← hn]
        simp
      · rw [Dict.get?_set_ne _ hb, h.degree b, hcount b hb]
    rw [Kahn.release, hget, Option.elim_some]
    by_cases hzero : n = 0
    · -- the last edge to the node
      have hif : ((n + 1 : ℕ) : ℤ) - 1 = 0 := by omega
      rw [if_pos hif]
      refine ⟨?_, ?_, hdegree, fun b hb => ?_⟩
      · rw [← List.append_assoc, List.nodup_append']
        exact ⟨h.nodup, List.nodup_singleton v, by simpa using hbusy⟩
      · intro b hb
        rw [← List.append_assoc] at hb
        obtain hb | hb := List.mem_append.1 hb
        · exact h.subset b hb
        · exact List.mem_singleton.1 hb ▸ hv
      · rw [← List.append_assoc, List.mem_append, List.mem_singleton]
        by_cases hbv : b = v
        · subst hbv
          exact iff_of_true (.inr rfl) hzero
        · rw [or_iff_left hbv, h.free b hb, hcount b hbv]
    · have hif : ¬ ((n + 1 : ℕ) : ℤ) - 1 = 0 := by omega
      rw [if_neg hif]
      refine ⟨h.nodup, h.subset, hdegree, fun b hb => ?_⟩
      by_cases hbv : b = v
      · subst hbv
        exact iff_of_false hbusy hzero
      · rw [h.free b hb, hcount b hbv]
  · have hget := h.degree v
    rw [if_neg hv] at hget
    rw [Kahn.release, hget]
    have hcount : ∀ b ∈ nodes, (v :: edges).count b = edges.count b := by
      intro b hb
      exact List.count_cons_of_ne (by rintro rfl; exact hv hb)
    refine ⟨h.nodup, h.subset, fun b => ?_, fun b hb => ?_⟩
    · rw [Option.elim_none, h.degree b]
      split_ifs with hb
      · rw [hcount b hb]
      · rfl
    · rw [Option.elim_none, ← hcount b hb, h.free b hb]

theorem Inv.foldl_release {edges : List α} (h : Inv next nodes d queue result edges) :
    Inv next nodes (edges.foldl Kahn.release (d, queue)).1 (edges.foldl Kahn.release (d, queue)).2 result [] := by
  induction edges generalizing d queue with
  | nil => exact h
  | cons v edges ih => exact ih h.release

theorem Inv.take {v : α} (hnodup : nodes.Nodup) (h : Inv next nodes d (v :: queue) result []) :
    Inv next nodes d queue (result ++ [v]) (next v) := by
  have happend : result ++ v :: queue = (result ++ [v]) ++ queue := by
    rw [List.append_assoc, List.singleton_append]
  have hv : v ∈ nodes := h.subset v (List.mem_append_right _ List.mem_cons_self)
  have hresult : v ∉ result := fun hmem => disjoint_of_nodup h.nodup hmem List.mem_cons_self
  have hleft : ∀ b, left next nodes (result ++ [v]) b + (next v).count b = left next nodes result b + 0 :=
    fun b => (left_append_singleton hnodup hv hresult b).symm
  refine ⟨happend ▸ h.nodup, happend ▸ h.subset, fun b => ?_, fun b hb => ?_⟩
  · rw [h.degree b, hleft, List.count_nil]
  · rw [← happend, h.free b hb, hleft, List.count_nil]

theorem Inv.sorted {v : α} (h : Inv next nodes d (v :: queue) result []) {a : α} (ha : a ∈ nodes)
    (hav : v ∈ next a) : a ∈ result := by
  have hmem : v ∈ result ++ v :: queue := List.mem_append_right _ List.mem_cons_self
  have hzero := (h.free v (h.subset v hmem)).1 hmem
  by_contra hresult
  exact left_eq_zero_iff.1 (Nat.eq_zero_of_add_eq_zero_right hzero) a ha hresult hav

theorem loop_inv (hnodup : nodes.Nodup) {fuel : ℕ} (hfuel : nodes.length ≤ result.length + fuel)
    (h : Inv next nodes d queue result []) (hfed : Fed next nodes result) :
    ∃ d', Inv next nodes d' [] (loop next fuel d queue result) [] ∧
      Fed next nodes (loop next fuel d queue result) := by
  induction fuel generalizing d queue result with
  | zero =>
    -- all nodes are taken
    have hle := (h.nodup.subperm h.subset).length_le
    rw [List.length_append] at hle
    obtain rfl : queue = [] := List.length_eq_zero_iff.1 (by omega)
    exact ⟨d, h, hfed⟩
  | succ fuel ih =>
    cases queue with
    | nil => exact ⟨d, h, hfed⟩
    | cons v queue =>
      refine ih ?_ (h.take hnodup).foldl_release (hfed.append_singleton fun a => h.sorted)
      rw [List.length_append, List.length_singleton]
      omega

theorem inv_start (next : α → List α) (nodes : List α) : Inv next nodes (inDegrees next nodes)
    (((inDegrees next nodes).items.filter fun e => e.2 = 0).map Prod.fst) [] [] := by
  have hmem : ∀ b, b ∈ ((inDegrees next nodes).items.filter fun e => e.2 = 0).map Prod.fst ↔
      b ∈ nodes ∧ left next nodes [] b = 0 := by
    intro b
    have hget := get?_inDegrees next nodes b
    constructor
    · intro hb
      obtain ⟨⟨_, n⟩, he, rfl⟩ := List.mem_map.1 hb
      obtain ⟨he, hn⟩ := List.mem_filter.1 he
      rw [Dict.mem_items_iff.1 he] at hget
      split_ifs at hget with hnodes
      · refine ⟨hnodes, ?_⟩
        have hzero : n = 0 := by simpa using hn
        rw [hzero] at hget
        exact_mod_cast (Option.some.inj hget).symm
    · rintro ⟨hnodes, hzero⟩
      rw [if_pos hnodes, hzero] at hget
      exact List.mem_map.2 ⟨(b, 0), List.mem_filter.2 ⟨Dict.mem_items_iff.2 hget, by simp⟩, rfl⟩
  refine ⟨?_, fun v hv => ((hmem v).1 hv).1, fun b => ?_, fun b hb => ?_⟩
  · exact (List.filter_sublist.map _).nodup (inDegrees next nodes).nodup
  · rw [get?_inDegrees, List.count_nil, Nat.add_zero]
  · rw [List.nil_append, hmem, List.count_nil, Nat.add_zero]
    exact and_iff_right hb

/-! ### What the sort gives -/

theorem exists_result (next : α → List α) (hnodup : nodes.Nodup) :
    ∃ result, sort next nodes = (if result.length ≠ nodes.length then [] else result) ∧ result.Nodup ∧
      result ⊆ nodes ∧ Fed next nodes result ∧ (Acyclic next nodes → nodes ⊆ result) := by
  obtain ⟨d, hinv, hfed⟩ := loop_inv hnodup (Nat.le_add_left _ _) (inv_start next nodes)
    fun b hb => by cases hb
  refine ⟨_, rfl, (List.nodup_append'.1 hinv.nodup).1, fun b hb => hinv.subset b (List.mem_append_left _ hb), hfed,
    fun hacyclic => ?_⟩
  by_contra hmissing
  rw [List.subset_def] at hmissing
  push Not at hmissing
  -- of the nodes that are missing, the first has no edge left that leads to it
  obtain ⟨b, hb, hPb, hfirst⟩ := hacyclic.exists_first hmissing
  have hfree := hinv.free b hb
  rw [List.append_nil, List.count_nil, Nat.add_zero] at hfree
  exact hPb (hfree.2 (left_eq_zero_iff.2 fun a ha hresult hab => hfirst a ⟨ha, hb, hab⟩ hresult))

/-- **The sort gives all nodes**, in order, just when there is no cycle. -/
theorem sort_perm_iff (hnodup : nodes.Nodup) :
    Acyclic next nodes ↔ (sort next nodes).Perm nodes ∧ Sorted next nodes (sort next nodes) := by
  obtain ⟨result, hsort, hresult, hsubset, hfed, hall⟩ := exists_result next hnodup
  constructor
  · intro hacyclic
    have hperm : result.Perm nodes :=
      (List.perm_ext_iff_of_nodup hresult hnodup).2 fun b => ⟨fun hb => hsubset hb, fun hb => hall hacyclic hb⟩
    rw [hsort, if_neg (not_not.2 hperm.length_eq)]
    exact ⟨hperm, fun a b hab => hfed b (hall hacyclic hab.2.1) a hab.1 hab.2.2⟩
  · rintro ⟨hperm, hsorted⟩
    exact hsorted.acyclic (hperm.nodup_iff.2 hnodup)

end Sorting

end LlmGateway.Kahn
