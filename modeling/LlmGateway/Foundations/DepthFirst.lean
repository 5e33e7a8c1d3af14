import Mathlib.Data.List.Basic
import Mathlib.Data.List.Chain
import Mathlib.Data.List.Nodup
import Mathlib.Data.List.Perm.Subperm
import Mathlib.Logic.Relation

/-!
# Depth first search

The search of a graph for a cycle: from a node along its edges, with the nodes that were begun and are not finished on
the path, and with those that are finished. A node on the path is the end of a cycle.

The search finds a cycle if and only if there is one (`searchAll_isOk_iff` from all nodes in turn). What it has
finished is in an order in which every edge leads to a node that was finished before (`Finished`); the path is a
chain of edges.
-/

namespace LlmGateway.DepthFirst

variable {α : Type*} (next : α → List α)

/-- The search from `v`: the nodes that are finished behind it, or the path on which it came to a node again. It goes
`fuel` nodes deep. -/
def search [DecidableEq α] (fuel : ℕ) (path finished : List α) (v : α) : Except (List α × α) (List α) :=
  if v ∈ path then .error (path, v)
  else if v ∈ finished then .ok finished
  else
    match fuel with
    | 0 => .error (path, v)
    | fuel + 1 => ((next v).foldlM (search fuel (v :: path)) finished).map (v :: ·)

/-- The search from every node that is not finished yet. -/
def searchAll [DecidableEq α] (nodes : List α) : Except (List α × α) (List α) := nodes.foldlM (search next nodes.length []) []

/-- There is an edge. -/
def Edge (a b : α) : Prop := b ∈ next a

/-- Every node has its edges to nodes behind it in the list. -/
def Finished : List α → Prop
  | [] => True
  | v :: finished => v ∉ finished ∧ (∀ w ∈ next v, w ∈ finished) ∧ Finished finished

variable {next}

variable {a v : α} {finished finished' nodes path : List α} {fuel : ℕ}

theorem Finished.closed (h : Finished next finished) {b : α} (ha : a ∈ finished)
    (hab : Edge next a b) : b ∈ finished := by
  induction finished with
  | nil => cases ha
  | cons v finished ih =>
    obtain ⟨-, hedges, hrest⟩ := h
    obtain rfl | ha := List.mem_cons.1 ha
    · exact List.mem_cons_of_mem _ (hedges b hab)
    · exact List.mem_cons_of_mem _ (ih hrest ha)

theorem Finished.closed_reach (h : Finished next finished) {b : α} (ha : a ∈ finished)
    (hab : Relation.ReflTransGen (Edge next) a b) : b ∈ finished := by
  induction hab with
  | refl => exact ha
  | tail _ hbc ih => exact h.closed ih hbc

theorem Finished.not_cycle (h : Finished next finished) (ha : a ∈ finished) :
    ¬ Relation.TransGen (Edge next) a a := by
  induction finished with
  | nil => cases ha
  | cons v finished ih =>
    obtain ⟨hv, hedges, hrest⟩ := h
    obtain rfl | ha := List.mem_cons.1 ha
    · intro hcycle
      obtain ⟨b, hab, hback⟩ := Relation.TransGen.head'_iff.1 hcycle
      exact hv (hrest.closed_reach (hedges b hab) hback)
    · exact ih hrest ha

/-! ## A search that ends -/

/-- What a search that ends has done: it has kept what was finished, in order, and has finished no node of the path. -/
structure Ends (next : α → List α) (path finished finished' : List α) : Prop where
  ordered : Finished next finished → Finished next finished'
  kept : ∀ u ∈ finished, u ∈ finished'
  path : ∀ u ∈ path, u ∈ finished' → u ∈ finished

theorem Ends.refl (path finished : List α) : Ends next path finished finished :=
  ⟨id, fun _ => id, fun _ _ => id⟩

theorem Ends.trans {finished'' : List α} (h : Ends next path finished finished')
    (h' : Ends next path finished' finished'') : Ends next path finished finished'' :=
  ⟨fun hf => h'.ordered (h.ordered hf), fun u hu => h'.kept u (h.kept u hu),
    fun u hu hf => h.path u hu (h'.path u hu hf)⟩

theorem ends_of_foldlM {f : List α → α → Except (List α × α) (List α)}
    (hf : ∀ finished v finished', f finished v = .ok finished' → Ends next path finished finished' ∧ v ∈ finished')
    {l : List α} (h : l.foldlM f finished = .ok finished') :
    Ends next path finished finished' ∧ ∀ v ∈ l, v ∈ finished' := by
  induction l generalizing finished with
  | nil =>
    obtain rfl := Except.ok.inj h
    exact ⟨.refl path finished, nofun⟩
  | cons v l ih =>
    rw [List.foldlM_cons] at h
    cases hv : f finished v with
    | error e =>
      rw [hv] at h
      cases h
    | ok finished₁ =>
      rw [hv] at h
      obtain ⟨hends, hmem⟩ := hf finished v finished₁ hv
      obtain ⟨hends', hmem'⟩ := ih h
      refine ⟨hends.trans hends', fun w hw => ?_⟩
      obtain rfl | hw := List.mem_cons.1 hw
      · exact hends'.kept w hmem
      · exact hmem' w hw

theorem ends_of_search [DecidableEq α]
    (h : search next fuel path finished v = .ok finished') : Ends next path finished finished' ∧ v ∈ finished' := by
  induction fuel generalizing path finished finished' v with
  | zero =>
    unfold search at h
    split_ifs at h with hpath hfinished
    obtain rfl := Except.ok.inj h
    exact ⟨.refl path finished, hfinished⟩
  | succ fuel ih =>
    unfold search at h
    split_ifs at h with hpath hfinished
    · obtain rfl := Except.ok.inj h
      exact ⟨.refl path finished, hfinished⟩
    · cases hloop : (next v).foldlM (search next fuel (v :: path)) finished with
      | error e =>
        simp only [hloop] at h
        cases h
      | ok finished₁ =>
        simp only [hloop] at h
        obtain rfl := Except.ok.inj h
        obtain ⟨hends, hmem⟩ := ends_of_foldlM (fun _ _ _ => ih) hloop
        have hv : v ∉ finished₁ := fun hv => hfinished (hends.path v List.mem_cons_self hv)
        refine ⟨⟨fun hf => ⟨hv, hmem, hends.ordered hf⟩, fun u hu => List.mem_cons_of_mem _ (hends.kept u hu),
          fun u hu hf => ?_⟩, List.mem_cons_self⟩
        obtain rfl | hf := List.mem_cons.1 hf
        · exact absurd hu hpath
        · exact hends.path u (List.mem_cons_of_mem _ hu) hf

/-! ## A search that fails -/

/-- The path of a search to `v` in a graph with these nodes. -/
structure Begun (next : α → List α) (nodes path : List α) (v : α) : Prop where
  chain : (v :: path).IsChain fun b a => Edge next a b
  nodup : path.Nodup
  nodes : ∀ u ∈ v :: path, u ∈ nodes

theorem reaches_of_isChain {u : α} (h : (v :: path).IsChain fun b a => Edge next a b)
    (hu : u ∈ path) : Relation.TransGen (Edge next) u v := by
  induction path generalizing v with
  | nil => cases hu
  | cons w path ih =>
    rw [List.isChain_cons_cons] at h
    obtain rfl | hu := List.mem_cons.1 hu
    · exact .single h.1
    · exact (ih h.2 hu).tail h.1

theorem error_of_foldlM {β σ ε : Type*} {f : σ → β → Except ε σ} {l : List β} {s : σ} {e : ε}
    (h : l.foldlM f s = .error e) : ∃ b ∈ l, ∃ t, f t b = .error e := by
  induction l generalizing s with
  | nil => cases h
  | cons b l ih =>
    rw [List.foldlM_cons] at h
    cases hb : f s b with
    | error e' =>
      rw [hb] at h
      obtain rfl := Except.error.inj h
      exact ⟨b, List.mem_cons_self, s, hb⟩
    | ok t =>
      rw [hb] at h
      obtain ⟨c, hc, u, hu⟩ := ih h
      exact ⟨c, List.mem_cons_of_mem _ hc, u, hu⟩

theorem cycle_of_search [DecidableEq α] (hclosed : ∀ a ∈ nodes, ∀ b ∈ next a, b ∈ nodes)
    (hbegun : Begun next nodes path v) (hfuel : nodes.length ≤ path.length + fuel)
    {e : List α × α} (h : search next fuel path finished v = .error e) :
    e.2 ∈ nodes ∧ Relation.TransGen (Edge next) e.2 e.2 := by
  induction fuel generalizing path finished v with
  | zero =>
    unfold search at h
    split_ifs at h with hpath hfinished
    · obtain rfl := Except.error.inj h
      exact ⟨hbegun.nodes v List.mem_cons_self, reaches_of_isChain hbegun.chain hpath⟩
    · -- A path without repetition is no longer than there are nodes.
      have hnodup : (v :: path).Nodup := List.nodup_cons.2 ⟨hpath, hbegun.nodup⟩
      have hlength := (List.subperm_of_subset hnodup hbegun.nodes).length_le
      rw [List.length_cons] at hlength
      omega
  | succ fuel ih =>
    unfold search at h
    split_ifs at h with hpath hfinished
    · obtain rfl := Except.error.inj h
      exact ⟨hbegun.nodes v List.mem_cons_self, reaches_of_isChain hbegun.chain hpath⟩
    · cases hloop : (next v).foldlM (search next fuel (v :: path)) finished with
      | ok finished₁ =>
        simp only [hloop] at h
        cases h
      | error e' =>
        simp only [hloop] at h
        obtain rfl := Except.error.inj h
        obtain ⟨w, hw, finished₁, hfail⟩ := error_of_foldlM hloop
        refine ih ⟨List.isChain_cons_cons.2 ⟨hw, hbegun.chain⟩, List.nodup_cons.2 ⟨hpath, hbegun.nodup⟩, ?_⟩ ?_ hfail
        · intro u hu
          obtain rfl | hu := List.mem_cons.1 hu
          · exact hclosed v (hbegun.nodes v List.mem_cons_self) u hw
          · exact hbegun.nodes u hu
        · rw [List.length_cons]
          omega

theorem begun_nil (hv : v ∈ nodes) : Begun next nodes [] v :=
  ⟨.singleton v, .nil, fun u hu => by rwa [List.mem_singleton.1 hu]⟩

/-! ## Cycles -/

/-- **The search ends if and only if there is no cycle.** -/
theorem searchAll_isOk_iff [DecidableEq α] (hclosed : ∀ a ∈ nodes, ∀ b ∈ next a, b ∈ nodes) :
    (∃ finished, searchAll next nodes = .ok finished) ↔ ∀ a ∈ nodes, ¬ Relation.TransGen (Edge next) a a := by
  constructor
  · rintro ⟨finished, h⟩ a ha
    obtain ⟨hends, hmem⟩ := ends_of_foldlM (fun _ _ _ => ends_of_search) h
    exact (hends.ordered trivial).not_cycle (hmem a ha)
  · intro hacyclic
    cases h : searchAll next nodes with
    | ok finished => exact ⟨finished, rfl⟩
    | error e =>
      obtain ⟨v, hv, finished, hfail⟩ := error_of_foldlM h
      obtain ⟨he, hcycle⟩ := cycle_of_search hclosed (begun_nil hv) (Nat.le_add_left ..) hfail
      exact absurd hcycle (hacyclic e.2 he)

theorem not_cycle_of_search [DecidableEq α]
    (h : search next fuel [] [] a = .ok finished) : ¬ Relation.TransGen (Edge next) a a := by
  obtain ⟨hends, hmem⟩ := ends_of_search h
  exact (hends.ordered trivial).not_cycle hmem

theorem exists_cycle_of_search [DecidableEq α] (hclosed : ∀ a ∈ nodes, ∀ b ∈ next a, b ∈ nodes)
    (ha : a ∈ nodes) {e : List α × α} (h : search next nodes.length [] [] a = .error e) :
    ∃ b, Relation.TransGen (Edge next) b b :=
  ⟨e.2, (cycle_of_search hclosed (begun_nil ha) (Nat.le_add_left ..) h).2⟩

end LlmGateway.DepthFirst
