import Mathlib.Algebra.Order.BigOperators.Group.List
import Mathlib.Algebra.Order.Group.Defs
import Mathlib.Data.List.Chain
import Mathlib.Order.Bounds.Basic
import Mathlib.Tactic.Abel
import LlmGateway.Foundations.Kahn

/-!
# Longest paths

A path goes along edges until there are none. In a graph without cycles, a function that gives each node its own weight
and the greatest of the values behind it gives the weight of the heaviest path from that node (`isGreatest_of_eq`).
With a second function for the paths against the edges, `isGreatest_through` gives the heaviest of the paths through a
node, from end to end.
-/

namespace LlmGateway.LongestPath

variable {α : Type*} {K : Type*}

/-- A path along the edges until there are none. -/
structure IsPath (next : α → List α) (path : List α) : Prop where
  chain : path.IsChain fun a b => b ∈ next a
  ends : ∀ a ∈ path.getLast?, next a = []

/-- The sum of the weights on a path. -/
def weight [AddCommMonoid K] (w : α → K) (path : List α) : K := (path.map w).sum

/-- The greatest of some values. -/
def greatest [Zero K] [Max K] (values : List K) : K := values.max?.getD 0

variable {next prev : α → List α} {a b : α} {path : List α}

theorem IsPath.tail (h : IsPath next (a :: b :: path)) : b ∈ next a ∧ IsPath next (b :: path) := by
  obtain ⟨hab, hchain⟩ := List.isChain_cons_cons.1 h.chain
  exact ⟨hab, hchain, fun c hc => h.ends c (by rwa [List.getLast?_cons_cons])⟩

theorem IsPath.cons (hab : b ∈ next a) (h : IsPath next (b :: path)) : IsPath next (a :: b :: path) :=
  ⟨List.isChain_cons_cons.2 ⟨hab, h.chain⟩, fun c hc => h.ends c (by rwa [List.getLast?_cons_cons] at hc)⟩

theorem isPath_singleton (h : next a = []) : IsPath next [a] :=
  ⟨List.isChain_singleton a, fun b hb => by
    obtain rfl := Option.some.inj hb
    exact h⟩

theorem IsPath.eq_nil (h : IsPath next (a :: path)) (hnext : next a = []) : path = [] := by
  cases path with
  | nil => rfl
  | cons b path =>
    have hb := h.tail.1
    rw [hnext] at hb
    cases hb

section Greatest

variable [AddCommMonoid K] [LinearOrder K]

theorem greatest_of_ne_nil {values : List K} (h : values ≠ []) : greatest values ∈ values ∧
    ∀ x ∈ values, x ≤ greatest values := by
  obtain ⟨m, hm⟩ := Option.ne_none_iff_exists'.1 fun hnone => h (List.max?_eq_none_iff.1 hnone)
  rw [greatest, hm]
  exact List.max?_eq_some_iff.1 hm

theorem greatest_congr {values values' : List K} (h : ∀ x, x ∈ values ↔ x ∈ values') :
    greatest values = greatest values' := by
  by_cases hnil : values = []
  · have hnil' : values' = [] := List.eq_nil_iff_forall_not_mem.2 fun x hx => by
      rw [← h, hnil] at hx
      cases hx
    rw [hnil, hnil']
  · have hnil' : values' ≠ [] := by
      rintro rfl
      exact hnil (List.eq_nil_iff_forall_not_mem.2 fun x hx => List.not_mem_nil ((h x).1 hx))
    obtain ⟨hmem, hmax⟩ := greatest_of_ne_nil hnil
    obtain ⟨hmem', hmax'⟩ := greatest_of_ne_nil hnil'
    exact le_antisymm (hmax' _ ((h _).1 hmem)) (hmax _ ((h _).2 hmem'))

variable [IsOrderedAddMonoid K] {w f : α → K} {nodes order : List α}

theorem greatest_map_add {values : List K} (h : values ≠ []) (c : K) :
    greatest (values.map (· + c)) = greatest values + c := by
  obtain ⟨hmem, hmax⟩ := greatest_of_ne_nil h
  have hmap : (values.map (· + c)).max? = some (greatest values + c) := by
    refine List.max?_eq_some_iff.2 ⟨List.mem_map_of_mem hmem, fun x hx => ?_⟩
    obtain ⟨y, hy, rfl⟩ := List.mem_map.1 hx
    exact add_le_add_left (hmax y hy) c
  rw [greatest, hmap]
  rfl

/-- **The heaviest path** from a node, by the values behind it. -/
theorem isGreatest_of_eq (hnodup : order.Nodup) (hback : ∀ a ∈ order, ∀ b ∈ next a, [b, a].Sublist order)
    (hf : ∀ a ∈ order, f a = w a + greatest ((next a).map f)) :
    ∀ a ∈ order, IsGreatest {x | ∃ rest, IsPath next (a :: rest) ∧ weight w (a :: rest) = x} (f a) := by
  refine Kahn.order_induction hnodup fun a ha ih => ?_
  have ih : ∀ b ∈ next a, IsGreatest {x | ∃ rest, IsPath next (b :: rest) ∧ weight w (b :: rest) = x} (f b) :=
    fun b hb => ih b (hback a ha b hb)
  by_cases hnext : next a = []
  · have hfa : f a = w a := by
      rw [hf a ha, hnext]
      exact add_zero _
    refine ⟨⟨[], isPath_singleton hnext, ?_⟩, ?_⟩
    · rw [hfa, weight, List.map_singleton, List.sum_singleton]
    · rintro _ ⟨rest, hpath, rfl⟩
      rw [hpath.eq_nil hnext, hfa, weight, List.map_singleton, List.sum_singleton]
  · have hvalues : (next a).map f ≠ [] := fun h => hnext (List.map_eq_nil_iff.1 h)
    obtain ⟨hmem, hmax⟩ := greatest_of_ne_nil hvalues
    refine ⟨?_, ?_⟩
    · obtain ⟨b, hb, hfb⟩ := List.mem_map.1 hmem
      obtain ⟨⟨rest, hpath, hweight⟩, -⟩ := ih b hb
      refine ⟨b :: rest, hpath.cons hb, ?_⟩
      rw [hf a ha, ← hfb, ← hweight, weight, weight, List.map_cons, List.sum_cons]
    · rintro _ ⟨rest, hpath, rfl⟩
      cases rest with
      | nil => exact (hnext (hpath.ends a rfl)).elim
      | cons b rest =>
        obtain ⟨hb, hpath⟩ := hpath.tail
        have hle : weight w (b :: rest) ≤ f b := (ih b hb).2 ⟨rest, hpath, rfl⟩
        have hgreatest : f b ≤ greatest ((next a).map f) := hmax _ (List.mem_map_of_mem hb)
        calc weight w (a :: b :: rest) = w a + weight w (b :: rest) := by
              rw [weight, weight, List.map_cons, List.sum_cons]
          _ ≤ w a + greatest ((next a).map f) := by gcongr; exact hle.trans hgreatest
          _ = f a := (hf a ha).symm

end Greatest

/-! ## From end to end -/

/-- A path between nodes that nothing extends, at neither end. -/
structure IsFullPath (next prev : α → List α) (nodes path : List α) : Prop where
  inside : ∀ a ∈ path, a ∈ nodes
  nonempty : path ≠ []
  chain : path.IsChain fun a b => b ∈ next a
  starts : ∀ a ∈ path.head?, prev a = []
  ends : ∀ a ∈ path.getLast?, next a = []

section Through

variable {nodes before after : List α} (hdual : ∀ a b, b ∈ next a ↔ a ∈ prev b)
include hdual

theorem isFullPath_iff : IsFullPath next prev nodes (before ++ a :: after) ↔
    (∀ b ∈ before ++ a :: after, b ∈ nodes) ∧ IsPath prev (a :: before.reverse) ∧ IsPath next (a :: after) := by
  have hreverse : a :: before.reverse = (before ++ [a]).reverse := by
    rw [List.reverse_append, List.reverse_singleton, List.singleton_append]
  have hhead : (before ++ a :: after).head? = (a :: before.reverse).getLast? := by
    rw [hreverse, List.getLast?_reverse]
    cases before <;> rfl
  have hlast : (before ++ a :: after).getLast? = (a :: after).getLast? := List.getLast?_append_cons _ _ _
  have hchain : (a :: before.reverse).IsChain (fun b c => c ∈ prev b) ↔
      (before ++ [a]).IsChain fun b c => c ∈ next b := by
    rw [hreverse, List.isChain_reverse]
    exact iff_of_eq (congrArg (fun R => List.IsChain R _) (funext₂ fun b c => propext (hdual b c).symm))
  constructor
  · intro h
    obtain ⟨hfront, hback⟩ := List.isChain_split.1 h.chain
    exact ⟨h.inside, ⟨hchain.2 hfront, hhead ▸ h.starts⟩, ⟨hback, hlast ▸ h.ends⟩⟩
  · rintro ⟨hinside, hfront, hback⟩
    exact ⟨hinside, by simp, List.isChain_split.2 ⟨hchain.1 hfront.chain, hback.chain⟩, hhead ▸ hfront.ends,
      hlast ▸ hback.ends⟩

omit hdual in
theorem IsPath.inside (hclosed : ∀ a ∈ nodes, ∀ b ∈ next a, b ∈ nodes) (ha : a ∈ nodes)
    (h : IsPath next (a :: path)) : ∀ b ∈ a :: path, b ∈ nodes := by
  induction path generalizing a with
  | nil =>
    intro b hb
    exact List.mem_singleton.1 hb ▸ ha
  | cons c path ih =>
    intro b hb
    obtain rfl | hb := List.mem_cons.1 hb
    · exact ha
    · exact ih (hclosed a ha c h.tail.1) h.tail.2 b hb

variable [AddCommGroup K] {w f g : α → K}

omit hdual in
theorem weight_append_cons : weight w (before ++ a :: after) =
    weight w (a :: before.reverse) + weight w (a :: after) - w a := by
  simp only [weight, List.map_append, List.map_cons, List.sum_append, List.sum_cons, List.map_reverse,
    List.sum_reverse]
  abel

variable [LinearOrder K] [IsOrderedAddMonoid K]

omit hdual in
theorem sub_min?_getD (total : K) (values : List K) :
    total - values.min?.getD total = greatest (values.map (total - ·)) := by
  cases hmin : values.min? with
  | none =>
    rw [List.min?_eq_none_iff.1 hmin]
    exact sub_self total
  | some m =>
    obtain ⟨hmem, hle⟩ := List.min?_eq_some_iff.1 hmin
    have hmax : (values.map (total - ·)).max? = some (total - m) := by
      refine List.max?_eq_some_iff.2 ⟨List.mem_map_of_mem hmem, fun x hx => ?_⟩
      obtain ⟨y, hy, rfl⟩ := List.mem_map.1 hx
      exact sub_le_sub_left (hle y hy) total
    rw [greatest, hmax]
    rfl

variable (hnext : ∀ a ∈ nodes, ∀ b ∈ next a, b ∈ nodes) (hprev : ∀ a ∈ nodes, ∀ b ∈ prev a, b ∈ nodes)
  (hf : ∀ a ∈ nodes, IsGreatest {x | ∃ rest, IsPath next (a :: rest) ∧ weight w (a :: rest) = x} (f a))
  (hg : ∀ a ∈ nodes, IsGreatest {x | ∃ rest, IsPath prev (a :: rest) ∧ weight w (a :: rest) = x} (g a))
include hnext hprev hf hg

/-- **The heaviest full path through a node.** -/
theorem isGreatest_through (ha : a ∈ nodes) : IsGreatest
    {x | ∃ path, IsFullPath next prev nodes path ∧ a ∈ path ∧ weight w path = x} (g a + f a - w a) := by
  constructor
  · obtain ⟨⟨after, hafter, hweight⟩, -⟩ := hf a ha
    obtain ⟨⟨before, hbefore, hweight'⟩, -⟩ := hg a ha
    refine ⟨before.reverse ++ a :: after, (isFullPath_iff hdual).2 ⟨?_, ?_, hafter⟩, by simp, ?_⟩
    · intro b hb
      obtain hb | hb := List.mem_append.1 hb
      · exact hbefore.inside hprev ha b (List.mem_cons_of_mem _ (List.mem_reverse.1 hb))
      · exact hafter.inside hnext ha b hb
    · rwa [List.reverse_reverse]
    · rw [weight_append_cons, List.reverse_reverse, hweight, hweight']
  · rintro _ ⟨path, hpath, hmem, rfl⟩
    obtain ⟨before, after, rfl⟩ := List.append_of_mem hmem
    obtain ⟨-, hbefore, hafter⟩ := (isFullPath_iff hdual).1 hpath
    rw [weight_append_cons]
    gcongr
    · exact (hg a ha).2 ⟨_, hbefore, rfl⟩
    · exact (hf a ha).2 ⟨_, hafter, rfl⟩

/-- **The heaviest full path of all** weighs as much as the heaviest one that ends anywhere, as no weight is
negative. -/
theorem isGreatest_fullPath (hw : ∀ a ∈ nodes, 0 ≤ w a) (hne : nodes ≠ []) : IsGreatest
    {x | ∃ path, IsFullPath next prev nodes path ∧ weight w path = x} (greatest (nodes.map g)) := by
  have hvalues : nodes.map g ≠ [] := fun h => hne (List.map_eq_nil_iff.1 h)
  obtain ⟨hmem, hmax⟩ := greatest_of_ne_nil hvalues
  have hupper : ∀ path, IsFullPath next prev nodes path → weight w path ≤ greatest (nodes.map g) := by
    intro path hpath
    obtain ⟨before, z, rfl⟩ : ∃ before z, path = before ++ [z] :=
      ⟨_, _, (List.dropLast_append_getLast hpath.nonempty).symm⟩
    obtain ⟨hinside, hbefore, -⟩ := (isFullPath_iff hdual).1 hpath
    have hz : z ∈ nodes := hinside z (List.mem_append_right _ (List.mem_singleton_self z))
    have hreverse : weight w (before ++ [z]) = weight w (z :: before.reverse) := by
      rw [weight_append_cons, weight, weight, List.map_singleton, List.sum_singleton, add_sub_cancel_right]
    rw [hreverse]
    exact ((hg z hz).2 ⟨_, hbefore, rfl⟩).trans (hmax _ (List.mem_map_of_mem hz))
  refine ⟨?_, fun x ⟨path, hpath, hx⟩ => hx ▸ hupper path hpath⟩
  obtain ⟨a, ha, hga⟩ := List.mem_map.1 hmem
  obtain ⟨⟨path, hpath, -, hweight⟩, -⟩ := isGreatest_through hdual hnext hprev hf hg ha
  refine ⟨path, hpath, le_antisymm (hupper path hpath) ?_⟩
  -- what follows the node weighs at least what the node does
  have hle : w a ≤ f a := by
    obtain ⟨⟨after, hafter, hfa⟩, -⟩ := hf a ha
    rw [← hfa, weight, List.map_cons, List.sum_cons]
    refine le_add_of_nonneg_right (List.sum_nonneg fun x hx => ?_)
    obtain ⟨b, hb, rfl⟩ := List.mem_map.1 hx
    exact hw b (hafter.inside hnext ha b (List.mem_cons_of_mem _ hb))
  rw [hweight, ← hga, add_sub_assoc]
  exact le_add_of_nonneg_right (sub_nonneg.2 hle)

end Through

end LlmGateway.LongestPath
