import Mathlib.Data.List.Sort
import Mathlib.Data.String.Basic
import LlmGateway.Foundations.Binary64

/-!
# The choice of a gateway

`selection_rules.py` and the sticky guard of `engine/core.py`. The feasible candidates are sorted by score and
then by name; a hard affinity leaves those of its node only, and otherwise a candidate that must evict wins
over one that need not when its score is larger by the margin at least.

Distinct names make the order of the candidates a strict one (`best_eq_some_iff`), so the choice is a
function of the set of the candidates: `applySelectionRule_spec`.
-/

namespace LlmGateway.Routing

inductive FeasibilityTier
  | infeasible
  | feasibleNow
  | feasibleEvict
  deriving DecidableEq

/-- A `GatewayCandidate`, with the name and the node of its gateway. Scores are finite floats. -/
structure GatewayCandidate where
  name : String
  nodeId : String
  tier : FeasibilityTier
  utilityScore : ℚ
  deriving DecidableEq

/-- What the rule reads of a hard `AffinityRule`. -/
structure AffinityRule where
  node : String
  evictIfNeeded : Bool

/-- The reason that goes with a choice. -/
inductive Reason
  /-- `hard_affinity={node}, tier=T1`, or `tier=T2_eviction` -/
  | hardAffinity (node : String) (tier : FeasibilityTier)
  /-- `hard_affinity={node}_infeasible` -/
  | hardAffinityInfeasible (node : String)
  /-- `T2 preferred (score={t2} >= T1 {t1} + margin {margin})` -/
  | t2Preferred (t2 t1 margin : ℚ)
  /-- `T1 preferred (score={t1}, T2 would need {needed})` -/
  | t1Preferred (t1 : ℚ) (needed : Binary64)
  /-- `T1 selected (score={t1})` -/
  | t1Selected (t1 : ℚ)
  /-- `T2 selected (score={t2}, no T1 available)` -/
  | t2Selected (t2 : ℚ)
  | noFeasibleGateways
  deriving DecidableEq

/-! ## The rule -/

/-- The order of the key `(-utility_score, gateway.name)`. -/
def before (a b : GatewayCandidate) : Prop :=
  b.utilityScore < a.utilityScore ∨ a.utilityScore = b.utilityScore ∧ a.name ≤ b.name

instance (a b : GatewayCandidate) : Decidable (before a b) := inferInstanceAs (Decidable (_ ∨ _))

/-- The first of the sorted candidates. -/
def best (candidates : List GatewayCandidate) : Option GatewayCandidate :=
  (candidates.insertionSort before).head?

/-- The candidates of a tier. -/
def ofTier (tier : FeasibilityTier) (candidates : List GatewayCandidate) : List GatewayCandidate :=
  candidates.filter fun c => c.tier = tier

/-- The candidates on a node. -/
def onNode (node : String) (candidates : List GatewayCandidate) : List GatewayCandidate :=
  candidates.filter fun c => c.nodeId = node

/-- `utility_score + eviction_margin`. -/
def needed (t1 : GatewayCandidate) (evictionMargin : ℚ) : Binary64 :=
  .finite t1.utilityScore + .finite evictionMargin

/-- `score >= needed`: a sum of finite floats is not a NaN. -/
def reaches (t2 : GatewayCandidate) (needed : Binary64) : Bool :=
  !Binary64.lt (.finite t2.utilityScore) needed

def applySelectionRule (candidates : List GatewayCandidate) (hardAffinity : Option AffinityRule)
    (evictionMargin : ℚ) : Option GatewayCandidate × Reason :=
  let t1 := ofTier .feasibleNow candidates
  let t2 := ofTier .feasibleEvict candidates
  match hardAffinity with
  | some rule =>
    match best (onNode rule.node t1) with
    | some c => (some c, .hardAffinity rule.node .feasibleNow)
    | none =>
      match best (onNode rule.node t2), rule.evictIfNeeded with
      | some c, true => (some c, .hardAffinity rule.node .feasibleEvict)
      | _, _ => (none, .hardAffinityInfeasible rule.node)
  | none =>
    match best t1, best t2 with
    | some b1, some b2 =>
      if reaches b2 (needed b1 evictionMargin) then
        (some b2, .t2Preferred b2.utilityScore b1.utilityScore evictionMargin)
      else (some b1, .t1Preferred b1.utilityScore (needed b1 evictionMargin))
    | some b1, none => (some b1, .t1Selected b1.utilityScore)
    | none, some b2 => (some b2, .t2Selected b2.utilityScore)
    | none, none => (none, .noFeasibleGateways)

/-! ## The best candidate -/

section Best

variable {candidates : List GatewayCandidate} {a b c : GatewayCandidate}

instance : Std.Total before := ⟨fun a b => by
  rcases lt_trichotomy a.utilityScore b.utilityScore with h | h | h
  · exact .inr (.inl h)
  · rcases le_total a.name b.name with hname | hname
    · exact .inl (.inr ⟨h, hname⟩)
    · exact .inr (.inr ⟨h.symm, hname⟩)
  · exact .inl (.inl h)⟩

instance : IsTrans GatewayCandidate before := ⟨fun a b c hab hbc => by
  rcases hab with hab | ⟨hab, hname⟩
  · rcases hbc with hbc | ⟨hbc, -⟩
    · exact .inl (hbc.trans hab)
    · exact .inl (hbc ▸ hab)
  · rcases hbc with hbc | ⟨hbc, hname'⟩
    · exact .inl (hab ▸ hbc)
    · exact .inr ⟨hab.trans hbc, hname.trans hname'⟩⟩

theorem name_eq_of_before (hab : before a b) (hba : before b a) : a.name = b.name := by
  rcases hab with hab | ⟨hscore, hab⟩ <;> rcases hba with hba | ⟨hscore', hba⟩
  · exact absurd hab hba.not_gt
  · exact absurd hab hscore'.not_lt
  · exact absurd hba hscore.not_lt
  · exact le_antisymm hab hba

theorem eq_of_name (h : (candidates.map GatewayCandidate.name).Nodup) (ha : a ∈ candidates) (hb : b ∈ candidates)
    (hname : a.name = b.name) : a = b :=
  List.inj_on_of_nodup_map h ha hb hname

/-- `c` comes first among the candidates that satisfy `p`. -/
structure IsBest (candidates : List GatewayCandidate) (p : GatewayCandidate → Prop) (c : GatewayCandidate) :
    Prop where
  mem : c ∈ candidates
  holds : p c
  first : ∀ d ∈ candidates, p d → before c d

theorem best_eq_none_iff : best candidates = none ↔ candidates = [] := by
  rw [best, List.head?_eq_none_iff, ← List.length_eq_zero_iff, List.length_insertionSort, List.length_eq_zero_iff]

/-- **The head of the sorted candidates** is the one that comes before all of them. -/
theorem best_eq_some_iff (h : (candidates.map GatewayCandidate.name).Nodup) :
    best candidates = some c ↔ c ∈ candidates ∧ ∀ d ∈ candidates, before c d := by
  have hhead : ∀ c, best candidates = some c → c ∈ candidates ∧ ∀ d ∈ candidates, before c d := by
    intro c hc
    obtain ⟨rest, hrest⟩ := List.head?_eq_some_iff.1 hc
    have hsorted := List.pairwise_insertionSort before candidates
    have hmem : ∀ d, d ∈ candidates ↔ d ∈ c :: rest := fun d => by
      rw [← hrest, List.mem_insertionSort]
    rw [hrest, List.pairwise_cons] at hsorted
    refine ⟨(hmem c).2 List.mem_cons_self, fun d hd => ?_⟩
    obtain rfl | hd := List.mem_cons.1 ((hmem d).1 hd)
    · exact refl_of before d
    · exact hsorted.1 d hd
  refine ⟨hhead c, fun ⟨hc, hfirst⟩ => ?_⟩
  obtain ⟨d, hd⟩ := Option.ne_none_iff_exists'.1 fun hnone => List.ne_nil_of_mem hc (best_eq_none_iff.1 hnone)
  obtain ⟨hd', hfirst'⟩ := hhead d hd
  rw [hd, eq_of_name h hd' hc (name_eq_of_before (hfirst' c hc) (hfirst d hd'))]

theorem best_filter_eq_some_iff (h : (candidates.map GatewayCandidate.name).Nodup)
    (p : GatewayCandidate → Prop) [DecidablePred p] :
    best (candidates.filter fun c => p c) = some c ↔ IsBest candidates p c := by
  have hnodup : ((candidates.filter fun c => p c).map GatewayCandidate.name).Nodup :=
    h.sublist (List.filter_sublist.map _)
  rw [best_eq_some_iff hnodup]
  simp only [List.mem_filter, decide_eq_true_eq, and_imp]
  exact ⟨fun ⟨hc, hfirst⟩ => ⟨hc.1, hc.2, hfirst⟩, fun hb => ⟨⟨hb.mem, hb.holds⟩, hb.first⟩⟩

theorem best_filter_eq_none_iff (p : GatewayCandidate → Prop) [DecidablePred p] :
    best (candidates.filter fun c => p c) = none ↔ ∀ c ∈ candidates, ¬ p c := by
  simp [best_eq_none_iff, List.filter_eq_nil_iff]

theorem best_perm {l : List GatewayCandidate} (hperm : l.Perm candidates)
    (h : (candidates.map GatewayCandidate.name).Nodup) : best l = best candidates := by
  refine Option.ext fun c => ?_
  rw [best_eq_some_iff h, best_eq_some_iff ((hperm.map _).nodup_iff.2 h), hperm.mem_iff]
  exact and_congr_right fun _ => forall_congr' fun d => by rw [hperm.mem_iff]

end Best

/-! ## The choice -/

section Choice

variable {candidates : List GatewayCandidate} {c : GatewayCandidate}

theorem onNode_ofTier (node : String) (tier : FeasibilityTier) (candidates : List GatewayCandidate) :
    onNode node (ofTier tier candidates) = candidates.filter fun c => c.tier = tier ∧ c.nodeId = node := by
  rw [onNode, ofTier, List.filter_filter]
  refine List.filter_congr fun c _ => ?_
  rw [Bool.decide_and, Bool.and_comm]

/-- **The choice does not depend on the order of the candidates.** -/
theorem applySelectionRule_perm {l : List GatewayCandidate} (hperm : l.Perm candidates)
    (h : (candidates.map GatewayCandidate.name).Nodup) (hardAffinity : Option AffinityRule) (evictionMargin : ℚ) :
    applySelectionRule l hardAffinity evictionMargin = applySelectionRule candidates hardAffinity evictionMargin := by
  have hfilter (p : GatewayCandidate → Bool) : best (l.filter p) = best (candidates.filter p) :=
    best_perm (hperm.filter p) (h.sublist (List.filter_sublist.map _))
  have htier (tier : FeasibilityTier) : best (ofTier tier l) = best (ofTier tier candidates) := hfilter _
  have hnode (node : String) (tier : FeasibilityTier) :
      best (onNode node (ofTier tier l)) = best (onNode node (ofTier tier candidates)) := by
    rw [onNode_ofTier, onNode_ofTier, hfilter]
  simp only [applySelectionRule, hnode, htier]

theorem reaches_of_before {a b : GatewayCandidate} (hab : before a b) {needed : Binary64}
    (hb : reaches b needed = true) : reaches a needed = true := by
  have hle : b.utilityScore ≤ a.utilityScore := by
    rcases hab with hab | ⟨hab, -⟩
    · exact hab.le
    · exact hab.ge
  cases needed with
  | finite q =>
    simp only [reaches, Binary64.lt, Bool.not_eq_true', decide_eq_false_iff_not, not_lt] at hb ⊢
    exact hb.trans hle
  | infinite negative => exact hb
  | nan => exact hb

/-- **Without an affinity** the best candidate that need not evict is chosen, unless one that must reaches its
score and the margin; then the best of those is chosen, and so it is when there are no others. -/
theorem applySelectionRule_free (h : (candidates.map GatewayCandidate.name).Nodup) (evictionMargin : ℚ) :
    (∀ b1, IsBest candidates (fun c => c.tier = .feasibleNow) b1 →
      ((∀ c ∈ candidates, c.tier = .feasibleEvict → reaches c (needed b1 evictionMargin) = false) →
        (applySelectionRule candidates none evictionMargin).1 = some b1) ∧
      ((∃ c ∈ candidates, c.tier = .feasibleEvict ∧ reaches c (needed b1 evictionMargin) = true) →
        ∃ b2, IsBest candidates (fun c => c.tier = .feasibleEvict) b2 ∧
          (applySelectionRule candidates none evictionMargin).1 = some b2)) ∧
    ((∀ c ∈ candidates, c.tier ≠ .feasibleNow) →
      ∀ c, (applySelectionRule candidates none evictionMargin).1 = some c ↔
        IsBest candidates (fun c => c.tier = .feasibleEvict) c) := by
  have h1 := fun c => best_filter_eq_some_iff (c := c) h fun c => c.tier = .feasibleNow
  have h2 := fun c => best_filter_eq_some_iff (c := c) h fun c => c.tier = .feasibleEvict
  constructor
  · intro b1 hb1
    have hbest : best (ofTier .feasibleNow candidates) = some b1 := (h1 b1).2 hb1
    cases hbest2 : best (ofTier .feasibleEvict candidates) with
    | none =>
      have hnone := (best_filter_eq_none_iff fun c : GatewayCandidate => c.tier = .feasibleEvict).1 hbest2
      refine ⟨fun _ => by simp only [applySelectionRule, hbest, hbest2], ?_⟩
      rintro ⟨c, hc, htier, -⟩
      exact absurd htier (hnone c hc)
    | some b2 =>
      have hb2 := (h2 b2).1 hbest2
      cases hreaches : reaches b2 (needed b1 evictionMargin) with
      | true =>
        refine ⟨fun hshort => ?_, fun _ => ⟨b2, hb2, ?_⟩⟩
        · rw [hshort b2 hb2.mem hb2.holds] at hreaches
          cases hreaches
        · simp only [applySelectionRule, hbest, hbest2, hreaches, if_true]
      | false =>
        refine ⟨fun _ => ?_, ?_⟩
        · simp only [applySelectionRule, hbest, hbest2, hreaches, Bool.false_eq_true, if_false]
        · rintro ⟨c, hc, htier, hreach⟩
          rw [reaches_of_before (hb2.first c hc htier) hreach] at hreaches
          cases hreaches
  · intro hnone c
    have hbest : best (ofTier .feasibleNow candidates) = none := (best_filter_eq_none_iff _).2 hnone
    rw [← h2 c]
    change _ ↔ best (ofTier .feasibleEvict candidates) = some c
    cases hbest2 : best (ofTier .feasibleEvict candidates) with
    | none | some b2 => simp only [applySelectionRule, hbest, hbest2]

/-- The candidate on the node of a hard affinity that the rule may choose. -/
def Satisfies (rule : AffinityRule) (c : GatewayCandidate) : Prop :=
  c.nodeId = rule.node ∧ (c.tier = .feasibleNow ∨ c.tier = .feasibleEvict ∧ rule.evictIfNeeded = true)

/-- **A hard affinity is respected**: what is chosen satisfies it, and something is chosen if anything does. -/
theorem applySelectionRule_affinity (h : (candidates.map GatewayCandidate.name).Nodup) (rule : AffinityRule)
    (evictionMargin : ℚ) :
    (∀ c, (applySelectionRule candidates (some rule) evictionMargin).1 = some c →
      c ∈ candidates ∧ Satisfies rule c) ∧
    ((∃ c ∈ candidates, Satisfies rule c) →
      (applySelectionRule candidates (some rule) evictionMargin).1.isSome = true) := by
  simp only [applySelectionRule, onNode_ofTier]
  cases h1 : best (candidates.filter fun c => c.tier = .feasibleNow ∧ c.nodeId = rule.node) with
  | some c =>
    obtain ⟨hmem, ⟨htier, hnode⟩, -⟩ := (best_filter_eq_some_iff h _).1 h1
    refine ⟨fun d hd => ?_, fun _ => rfl⟩
    obtain rfl := Option.some.inj hd
    exact ⟨hmem, hnode, .inl htier⟩
  | none =>
    have hnow := (best_filter_eq_none_iff _).1 h1
    cases h2 : best (candidates.filter fun c => c.tier = .feasibleEvict ∧ c.nodeId = rule.node) with
    | none =>
      have hevict := (best_filter_eq_none_iff _).1 h2
      refine ⟨fun d hd => (Option.some_ne_none d hd.symm).elim, ?_⟩
      rintro ⟨c, hc, hnode, htier | ⟨htier, -⟩⟩
      · exact absurd ⟨htier, hnode⟩ (hnow c hc)
      · exact absurd ⟨htier, hnode⟩ (hevict c hc)
    | some c =>
      obtain ⟨hmem, ⟨htier, hnode⟩, -⟩ := (best_filter_eq_some_iff h _).1 h2
      cases hrule : rule.evictIfNeeded with
      | true =>
        refine ⟨fun d hd => ?_, fun _ => rfl⟩
        obtain rfl := Option.some.inj hd
        exact ⟨hmem, hnode, .inr ⟨htier, hrule⟩⟩
      | false =>
        refine ⟨fun d hd => (Option.some_ne_none d hd.symm).elim, ?_⟩
        rintro ⟨d, hd, hnode, htier | ⟨-, hevict⟩⟩
        · exact absurd ⟨htier, hnode⟩ (hnow d hd)
        · rw [hrule] at hevict
          cases hevict

end Choice

/-- **The selection rule**: the choice is a function of the set of the candidates; without an affinity it is the
best candidate that need not evict, unless one that must reaches its score and the margin; and a hard affinity
that can be satisfied is. -/
theorem applySelectionRule_spec (candidates : List GatewayCandidate)
    (h : (candidates.map GatewayCandidate.name).Nodup) (evictionMargin : ℚ) :
    (∀ l hardAffinity, l.Perm candidates →
      applySelectionRule l hardAffinity evictionMargin =
        applySelectionRule candidates hardAffinity evictionMargin) ∧
    ((∀ b1, IsBest candidates (fun c => c.tier = .feasibleNow) b1 →
      ((∀ c ∈ candidates, c.tier = .feasibleEvict → reaches c (needed b1 evictionMargin) = false) →
        (applySelectionRule candidates none evictionMargin).1 = some b1) ∧
      ((∃ c ∈ candidates, c.tier = .feasibleEvict ∧ reaches c (needed b1 evictionMargin) = true) →
        ∃ b2, IsBest candidates (fun c => c.tier = .feasibleEvict) b2 ∧
          (applySelectionRule candidates none evictionMargin).1 = some b2)) ∧
    ((∀ c ∈ candidates, c.tier ≠ .feasibleNow) →
      ∀ c, (applySelectionRule candidates none evictionMargin).1 = some c ↔
        IsBest candidates (fun c => c.tier = .feasibleEvict) c)) ∧
    ∀ rule : AffinityRule,
      (∀ c, (applySelectionRule candidates (some rule) evictionMargin).1 = some c →
        c ∈ candidates ∧ Satisfies rule c) ∧
      ((∃ c ∈ candidates, Satisfies rule c) →
        (applySelectionRule candidates (some rule) evictionMargin).1.isSome = true) :=
  ⟨fun _ hardAffinity hperm => applySelectionRule_perm hperm h hardAffinity evictionMargin,
    applySelectionRule_free h evictionMargin, fun rule => applySelectionRule_affinity h rule evictionMargin⟩

/-- A candidate of score 40. -/
def scored (name : String) (tier : FeasibilityTier) : GatewayCandidate where
  name := name
  nodeId := name
  tier := tier
  utilityScore := 40

/-- Two equal scores: the names decide. -/
theorem applySelectionRule_tie :
    applySelectionRule [scored "b" .feasibleNow, scored "a" .feasibleNow] none 10 =
      applySelectionRule [scored "a" .feasibleNow, scored "b" .feasibleNow] none 10 :=
  (applySelectionRule_spec [scored "a" .feasibleNow, scored "b" .feasibleNow] (by decide) 10).1 _ none
    (List.Perm.swap _ _ _)

end LlmGateway.Routing
