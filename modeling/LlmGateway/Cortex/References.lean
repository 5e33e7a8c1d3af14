import LlmGateway.Cortex.IdentityChange
import LlmGateway.Cortex.Surfaces
import Mathlib.Algebra.Group.Int.Defs
import Mathlib.Algebra.Group.Prod

/-!
# What a rekey and a merge keep

`ReferencesKept` and the definitions behind it say that what refers to an entity refers to another id after a
rekey or a merge: references that resolve, and rows of the child tables, up to the keys by which a merge drops
duplicates.

A rekey keeps all rows and the references that the aliases stored with the entity, or its old id, answer to
(`Rekeyed`). A merge keeps the id of the source as a reference, and all rows but the memberships in event chains,
which it drops, and the relationships between the two, which would be loops (`MergedInto`).
-/

namespace LlmGateway.Cortex

variable {ρ : Type}

/-! ## References -/

/-- The reference resolves to the entity. -/
def ResolvesTo (s : Store ρ) (ref entityId : String) : Prop :=
  ∀ label fileRefusal, ∃ out,
    resolveEntityReference s ref true false label fileRefusal = .ok out ∧ out.entityId = entityId

/-- An alias text of an entity type answers a reference: it is the reference, or what comes behind the type. -/
def answers (ref entityType aliasText : String) : Bool :=
  let part := afterColon ref
  let candidates := if hasColon ref && part != "" then [ref, part] else [ref]
  let typeHint := if hasColon ref then String.ofList (ref.toList.takeWhile (· != ':')) else ""
  candidates.contains aliasText && (typeHint == "" || entityType == typeHint)

/-- No other entity answers the reference, by its id or by an alias. -/
structure AnswersAlone (s : Store ρ) (ref entityId : String) : Prop where
  ids : ref ≠ entityId → s.entities.get? ref = none
  aliases : ∀ row ∈ s.entityAliases, answers ref row.entityType row.aliasText = true → row.entityId = entityId

/-! ## Rows -/

/-- Every active assertion of `old` is there for `new`: an active one has its claim's hash, or it is itself. -/
def AssertionsKept (T : Text) (s s' : Store ρ) (old new : String) : Prop :=
  ∀ i r, s.assertions.get? i = some r → r.entityId = old → r.active = true →
    ∃ j r', s'.assertions.get? j = some r' ∧ r'.entityId = new ∧ r'.active = true ∧
      ((j = i ∧ r'.claim = r.claim) ∨ r'.claimHash = some (computeClaimHash T new r.claim))

/-- Every active relationship of `old` that meets the condition is there for `new`, by its key. -/
def RelationshipsKept (c c' : Surfaces) (old new : String) (P : Relationship → Prop) : Prop :=
  ∀ i r, c.relationships.get? i = some r → activeAt old i r = true → P r →
    ∃ j r', c'.relationships.get? j = some r' ∧ r'.active = true ∧ r'.key = (r.rename old new).key

def TagsKept (c c' : Surfaces) (old new : String) : Prop :=
  ∀ i r, c.tagAssignments.get? i = some r → r.entityId = old →
    ∃ j r', c'.tagAssignments.get? j = some r' ∧ r'.entityId = new ∧ r'.tagName = r.tagName

def SurfaceFormsKept (c c' : Surfaces) (old new : String) : Prop :=
  ∀ i r, c.surfaceForms.get? i = some r → r.entityId = old →
    ∃ j r', c'.surfaceForms.get? j = some r' ∧ r'.entityId = new ∧ r'.mention = r.mention ∧
      r'.contextHash = r.contextHash

def MembershipsKept (c c' : Surfaces) (old new : String) : Prop :=
  ∀ m ∈ c.eventChainMembers, m.eventId = old → ⟨m.chainId, new⟩ ∈ c'.eventChainMembers

def ChainRootsKept (c c' : Surfaces) (old new : String) : Prop :=
  ∀ chain ∈ c.eventChains, chain.rootEventId = some old → ⟨chain.chainId, some new⟩ ∈ c'.eventChains

/-- The counts of a row of the access summary, `0` where there is none. -/
def accessCounts (c : Surfaces) (entityId agent week : String) : ℤ × ℤ × ℤ :=
  ((c.accessSummary.get? (entityId, agent, week)).map fun counts =>
    (counts.agentAccessCount.getD 0, counts.bootAccessCount.getD 0, counts.sessionCount.getD 0)).getD (0, 0, 0)

/-- The accesses of `new` are those of both, for every agent and week and in the log. -/
structure AccessKept (c c' : Surfaces) (old new : String) : Prop where
  summary : ∀ agent week, accessCounts c' new agent week =
    accessCounts c new agent week + accessCounts c old agent week
  log : (c'.accessLog.countP fun r => r.entityId == new) =
    (c.accessLog.countP fun r => r.entityId == new) + c.accessLog.countP fun r => r.entityId == old

/-- What refers to `old` refers to `new`: all references that resolved to it, and all rows. -/
structure ReferencesKept (T : Text) (s s' : EntityStore ρ) (old new : String) : Prop where
  references : ∀ ref, ResolvesTo s.store ref old → ResolvesTo s'.store ref new
  assertions : AssertionsKept T s.store s'.store old new
  relationships : RelationshipsKept s.surfaces s'.surfaces old new fun _ => True
  tags : TagsKept s.surfaces s'.surfaces old new
  surfaceForms : SurfaceFormsKept s.surfaces s'.surfaces old new
  memberships : MembershipsKept s.surfaces s'.surfaces old new
  access : AccessKept s.surfaces s'.surfaces old new

/-- What a rekey keeps. -/
structure Rekeyed (T : Text) (s s' : EntityStore ρ) (old new : String) : Prop where
  /-- A live entity answers to the aliases that are stored with it, and to its old id. -/
  references : ∀ row, s.store.entities.get? old = some row → nonLiveLifecycle row.lifecycle = false →
    ∀ ref, AnswersAlone s.store ref old → ∀ text ∈ old :: row.aliases, Json.strip text ≠ "" →
      answers ref row.type (Json.strip text) = true → ResolvesTo s'.store ref new
  assertions : AssertionsKept T s.store s'.store old new
  relationships : RelationshipsKept s.surfaces s'.surfaces old new fun _ => True
  tags : TagsKept s.surfaces s'.surfaces old new
  surfaceForms : SurfaceFormsKept s.surfaces s'.surfaces old new
  memberships : MembershipsKept s.surfaces s'.surfaces old new
  chainRoots : ChainRootsKept s.surfaces s'.surfaces old new
  access : AccessKept s.surfaces s'.surfaces old new

/-- What a merge keeps. -/
structure MergedInto (T : Text) (s s' : EntityStore ρ) (old new : String) : Prop where
  references : new ≠ "" → ResolvesTo s'.store old new
  assertions : AssertionsKept T s.store s'.store old new
  relationships : RelationshipsKept s.surfaces s'.surfaces old new fun r =>
    (r.rename old new).fromEntity ≠ (r.rename old new).toEntity
  tags : TagsKept s.surfaces s'.surfaces old new
  surfaceForms : SurfaceFormsKept s.surfaces s'.surfaces old new
  memberships : ∀ m ∈ s'.surfaces.eventChainMembers, m.eventId ≠ old
  chainRoots : ChainRootsKept s.surfaces s'.surfaces old new
  access : AccessKept s.surfaces s'.surfaces old new

/-! ## Loops over the child tables -/

theorem renameId_self (old new : String) : renameId old new old = new := if_pos rfl

variable {α : Type} {i : ℕ} {r : α} {t : Table α} {new now old : String} {c c' : Surfaces}

theorem moveOrDrop_get? {has : α → Bool} {move : α → α} {rows : List (ℕ × α)}
    (hn : (rows.map Prod.fst).Nodup) (t : Table α) (i : ℕ) :
    (moveOrDrop has move t rows).get? i = (Dict.lookup i rows).elim (t.get? i) fun r =>
      if has r then none else (t.get? i).map move := by
  induction rows generalizing t with
  | nil => rfl
  | cons e rows ih =>
    rw [List.map_cons, List.nodup_cons] at hn
    rw [moveOrDrop, List.foldl_cons, ← moveOrDrop, ih hn.2]
    by_cases hi : i = e.1
    · subst hi
      rw [Dict.lookup_eq_none hn.1, Option.elim_none, Dict.lookup, if_pos rfl, Option.elim_some]
      split
      · simp [Table.get?_delete]
      · simp [Table.get?_update]
    · have hstep : (if has e.2 then t.delete fun i _ => i == e.1
          else t.update (fun i _ => i == e.1) move).get? i = t.get? i := by
        split
        · rw [Table.get?_delete]
          cases t.get? i <;> simp [hi]
        · simp [Table.get?_update, hi]
      rw [hstep, Dict.lookup, if_neg (Ne.symm hi)]

theorem select_nodup (t : Table α) (p : ℕ → α → Bool) : ((t.select p).map Prod.fst).Nodup :=
  (List.filter_sublist.map _).nodup t.rows.nodup

theorem moveOrDrop_select {has : α → Bool} {move : α → α} {p : ℕ → α → Bool} (hr : t.get? i = some r) :
    (moveOrDrop has move t (t.select p)).get? i =
      if p i r then if has r then none else some (move r) else some r := by
  rw [moveOrDrop_get? (select_nodup t p)]
  cases hp : p i r with
  | true =>
    rw [(Dict.mem_iff_lookup (select_nodup t p)).1 (Table.mem_select.2 ⟨hr, hp⟩), Option.elim_some, hr]
    rfl
  | false =>
    have hnone : Dict.lookup i (t.select p) = none := by
      rw [Option.eq_none_iff_forall_ne_some]
      intro r' hr'
      obtain ⟨hget, hsel⟩ := Table.mem_select.1 ((Dict.mem_iff_lookup (select_nodup t p)).2 hr')
      obtain rfl := Option.some.inj (hr.symm.trans hget)
      rw [hp] at hsel
      cases hsel
    rw [hnone, Option.elim_none, hr]
    rfl

theorem moveOrDrop_kept {κ : Type} [BEq κ] [LawfulBEq κ] (entity : α → String) (key : α → κ) (move : α → α)
    (hne : old ≠ new) (hentity : ∀ r, entity (move r) = new)
    (hkey : ∀ r, key (move r) = key r) (hr : t.get? i = some r) (hold : entity r = old) :
    ∃ j r', (moveOrDrop (fun r => ((t.select fun _ r => entity r == new).map fun e => key e.2).contains (key r))
      move t (t.select fun _ r => entity r == old)).get? j = some r' ∧ entity r' = new ∧ key r' = key r := by
  cases hhas : ((t.select fun _ r => entity r == new).map fun e => key e.2).contains (key r) with
  | true =>
    -- The target's row with the key stays.
    obtain ⟨⟨j, r₀⟩, hj, hname⟩ := List.mem_map.1 (List.contains_iff_mem.1 hhas)
    obtain ⟨hr₀, hnew⟩ := Table.mem_select.1 hj
    have hother : (entity r₀ == old) = false := beq_eq_false_iff_ne.2 (beq_iff_eq.1 hnew ▸ hne.symm)
    refine ⟨j, r₀, ?_, beq_iff_eq.1 hnew, hname⟩
    rw [moveOrDrop_select hr₀, hother]
    rfl
  | false =>
    refine ⟨i, move r, ?_, hentity r, hkey r⟩
    rw [moveOrDrop_select hr, hold, beq_self_eq_true, hhas]
    rfl

theorem mergeTags_kept (hne : old ≠ new)
    (h : c'.tagAssignments = mergeTags c.tagAssignments old new) : TagsKept c c' old new := by
  intro i r hr hold
  rw [h]
  exact moveOrDrop_kept TagAssignment.entityId TagAssignment.tagName (fun r => { r with entityId := new }) hne
    (fun _ => rfl) (fun _ => rfl) hr hold

theorem mergeSurfaceForms_kept (hne : old ≠ new)
    (h : c'.surfaceForms = mergeSurfaceForms c.surfaceForms old new) : SurfaceFormsKept c c' old new := by
  intro i r hr hold
  rw [h]
  obtain ⟨j, r', hr', hnew, hkey⟩ :=
    moveOrDrop_kept SurfaceForm.entityId (fun r => (r.mention, r.contextHash))
      (fun r => { r with entityId := new }) hne (fun _ => rfl) (fun _ => rfl) hr hold
  exact ⟨j, r', hr', hnew, Prod.mk.inj hkey⟩

/-! ## Relationships -/

theorem targetKeys_spec {t : Table Relationship} {targetId : String} {k : String × String × String} {id : ℕ}
    (h : (targetKeys t targetId).get? k = some id) : ∃ r, t.get? id = some r ∧ r.active = true ∧ r.key = k := by
  have hloop : ∀ (l : List (ℕ × Relationship)) (d : Dict (String × String × String) ℕ),
      (∀ e ∈ l, t.get? e.1 = some e.2 ∧ e.2.active = true) →
      (∀ k id, d.get? k = some id → ∃ r, t.get? id = some r ∧ r.active = true ∧ r.key = k) →
      ∀ k id, (l.foldl (fun keys e => keys.set e.2.key e.1) d).get? k = some id →
        ∃ r, t.get? id = some r ∧ r.active = true ∧ r.key = k := by
    intro l
    induction l with
    | nil => exact fun d _ hd => hd
    | cons e l ih =>
      intro d hl hd
      refine ih _ (fun e' he' => hl e' (List.mem_cons_of_mem _ he')) fun k id hk => ?_
      rw [Dict.get?_set] at hk
      split at hk
      · rename_i heq
        obtain rfl := Option.some.inj hk
        obtain ⟨hrow, hactive⟩ := hl e List.mem_cons_self
        exact ⟨e.2, hrow, hactive, heq.symm⟩
      · exact hd k id hk
  refine hloop _ ∅ (fun e he => ?_) (by simp) k id h
  obtain ⟨hrow, hp⟩ := Table.mem_select.1 he
  exact ⟨hrow, (Bool.and_eq_true_iff.1 hp).1⟩

/-- The key names the entity. -/
def names (entityId : String) (k : String × String × String) : Prop := k.1 = entityId ∨ k.2.1 = entityId

/-- The state of the loop: the rows that are left are as they were, and a key without the source is that of an
active relationship. -/
structure LoopInv (source : String) (left : List (ℕ × Relationship))
    (a : Table Relationship × Dict (String × String × String) ℕ) : Prop where
  rows : ∀ e ∈ left, a.1.get? e.1 = some e.2
  keys : ∀ k id, a.2.get? k = some id → ¬ names source k →
    ∃ r, a.1.get? id = some r ∧ r.active = true ∧ r.key = k

theorem activeAt_iff {entityId : String} {r : Relationship} :
    activeAt entityId i r = true ↔ r.active = true ∧ names entityId r.key := by
  rw [activeAt, Bool.and_eq_true, Bool.or_eq_true, beq_iff_eq, beq_iff_eq]
  rfl

theorem not_names_rename (hne : old ≠ new) (r : Relationship) :
    ¬ names old (r.rename old new).key := by
  have hrename : ∀ id, renameId old new id ≠ old := by
    intro id h
    unfold renameId at h
    split at h
    · exact hne h.symm
    · contradiction
  rintro (h | h)
  · exact hrename _ h
  · exact hrename _ h

theorem get?_update_ne {j : ℕ} (hne : i ≠ j) (f : α → α) : (t.update (fun i _ => i == j) f).get? i = t.get? i := by
  simp [Table.get?_update, hne]

theorem get?_update_self (h : t.get? i = some r) (f : α → α) :
    (t.update (fun j _ => j == i) f).get? i = some (f r) := by
  simp [Table.get?_update, h]

/-- One relationship of the source: its key is there afterwards, unless it would be a loop. -/
theorem LoopInv.step {e : ℕ × Relationship}
    {left : List (ℕ × Relationship)} {a : Table Relationship × Dict (String × String × String) ℕ}
    (h : LoopInv old (e :: left) a) (he : e.1 ∉ left.map Prod.fst) (hactive : activeAt old e.1 e.2 = true) :
    LoopInv old left (mergeRelationship old new now a e) ∧
      (∀ k, a.2.contains k = true → (mergeRelationship old new now a e).2.contains k = true) ∧
      ((e.2.rename old new).fromEntity ≠ (e.2.rename old new).toEntity →
        (mergeRelationship old new now a e).2.contains (e.2.rename old new).key = true) := by
  obtain ⟨hact, hnames⟩ := activeAt_iff.1 hactive
  have hrow := h.rows e List.mem_cons_self
  have hother : ∀ e' ∈ left, e'.1 ≠ e.1 := fun e' he' heq => he (heq ▸ List.mem_map_of_mem he')
  -- The keys without the source are not those of the row that the step changes.
  have hfree : ∀ k, a.2.get? k = some e.1 → names old k := by
    intro k hk
    by_contra hk'
    obtain ⟨r, hr, -, rfl⟩ := h.keys k e.1 hk hk'
    obtain rfl := Option.some.inj (hrow.symm.trans hr)
    exact hk' hnames
  have hclosed : ∀ f, LoopInv old left (a.1.update (fun i _ => i == e.1) f, a.2) := by
    intro f
    refine ⟨fun e' he' => ?_, fun k id hk hk' => ?_⟩
    · rw [get?_update_ne (hother e' he')]
      exact h.rows e' (List.mem_cons_of_mem _ he')
    · have hid : id ≠ e.1 := fun heq => hk' (hfree k (heq ▸ hk))
      rw [get?_update_ne hid]
      exact h.keys k id hk hk'
  unfold mergeRelationship
  dsimp only
  split
  · rename_i hloop
    exact ⟨hclosed _, fun _ => id, fun hno => absurd hloop hno⟩
  split
  · rename_i hhas
    refine ⟨hclosed _, fun _ => id, fun _ => ?_⟩
    rcases hkey : a.2.get? (e.2.rename old new).key with _ | id
    · rw [hkey] at hhas
      cases hhas
    · exact Dict.contains_iff.2 ⟨id, hkey⟩
  · refine ⟨⟨fun e' he' => ?_, fun k id hk hk' => ?_⟩, fun k hk => Dict.contains_set hk _ _, fun _ => ?_⟩
    · rw [get?_update_ne (hother e' he')]
      exact h.rows e' (List.mem_cons_of_mem _ he')
    · rw [Dict.get?_set] at hk
      split at hk
      · rename_i heq
        obtain rfl := Option.some.inj hk
        exact ⟨_, get?_update_self hrow _, hact, heq.symm⟩
      · have hid : id ≠ e.1 := fun heq => hk' (hfree k (heq ▸ hk))
        rw [get?_update_ne hid]
        exact h.keys k id hk hk'
    · exact Dict.contains_iff.2 ⟨e.1, Dict.get?_set_self ..⟩

/-- **The loop**: every relationship of the source has its key there, unless it would be a loop. -/
theorem LoopInv.run {left : List (ℕ × Relationship)}
    {a : Table Relationship × Dict (String × String × String) ℕ} (h : LoopInv old left a)
    (hn : (left.map Prod.fst).Nodup) (hactive : ∀ e ∈ left, activeAt old e.1 e.2 = true) :
    LoopInv old [] (left.foldl (mergeRelationship old new now) a) ∧
      (∀ k, a.2.contains k = true → (left.foldl (mergeRelationship old new now) a).2.contains k = true) ∧
      ∀ e ∈ left, (e.2.rename old new).fromEntity ≠ (e.2.rename old new).toEntity →
        (left.foldl (mergeRelationship old new now) a).2.contains (e.2.rename old new).key = true := by
  induction left generalizing a with
  | nil => exact ⟨h, fun _ => id, by simp⟩
  | cons e left ih =>
    rw [List.map_cons, List.nodup_cons] at hn
    obtain ⟨hinv, hgrows, hadded⟩ := h.step hn.1 (hactive e List.mem_cons_self)
    obtain ⟨hend, hgrows', hall⟩ := ih hinv hn.2 fun e' he' => hactive e' (List.mem_cons_of_mem _ he')
    refine ⟨hend, fun k hk => hgrows' k (hgrows k hk), fun e' he' hloop => ?_⟩
    obtain rfl | he' := List.mem_cons.1 he'
    · exact hgrows' _ (hadded hloop)
    · exact hall e' he' hloop

theorem mergeRelationships_kept (hne : old ≠ new)
    (h : c'.relationships = mergeRelationships c.relationships old new now) :
    RelationshipsKept c c' old new fun r => (r.rename old new).fromEntity ≠ (r.rename old new).toEntity := by
  intro i r hr hactive hloop
  have hstart : LoopInv old (c.relationships.select (activeAt old))
      (c.relationships, targetKeys c.relationships new) :=
    ⟨fun e he => (Table.mem_select.1 he).1, fun k id hk _ => targetKeys_spec hk⟩
  obtain ⟨hend, -, hall⟩ := hstart.run (select_nodup _ _) fun e he => (Table.mem_select.1 he).2
  obtain ⟨j, hj⟩ := Dict.contains_iff.1 (hall (i, r) (Table.mem_select.2 ⟨hr, hactive⟩) hloop)
  obtain ⟨r', hr', hact', hkey⟩ := hend.keys _ j hj (not_names_rename hne r)
  exact ⟨j, r', h ▸ hr', hact', hkey⟩

/-! ## Accesses -/

theorem foldl_summary_get?
    {step : Dict (String × String × String) AccessCounts → (String × String × String) × AccessCounts →
      Dict (String × String × String) AccessCounts} {f : Option AccessCounts → AccessCounts → AccessCounts}
    (hstep : ∀ d e, e.1.1 = old → ∀ aw, (step d e).get? (new, aw) =
      if aw = e.1.2 then some (f (d.get? (new, aw)) e.2) else d.get? (new, aw))
    {rows : List ((String × String × String) × AccessCounts)} (hn : (rows.map Prod.fst).Nodup)
    (hold : ∀ e ∈ rows, e.1.1 = old) (d : Dict (String × String × String) AccessCounts) (aw : String × String) :
    (rows.foldl step d).get? (new, aw) =
      (Dict.lookup (old, aw) rows).elim (d.get? (new, aw)) fun c => some (f (d.get? (new, aw)) c) := by
  induction rows generalizing d with
  | nil => rfl
  | cons e rows ih =>
    rw [List.map_cons, List.nodup_cons] at hn
    have he := hold e List.mem_cons_self
    rw [List.foldl_cons, ih hn.2 (fun e' he' => hold e' (List.mem_cons_of_mem _ he')), hstep d e he, Dict.lookup]
    have hkey : e.1 = (old, aw) ↔ aw = e.1.2 := by
      rw [← he, Prod.ext_iff]
      simp [eq_comm]
    by_cases haw : aw = e.1.2
    · have hnone : Dict.lookup (old, aw) rows = none := Dict.lookup_eq_none (hkey.2 haw ▸ hn.1)
      rw [if_pos haw, if_pos (hkey.2 haw), hnone]
      rfl
    · rw [if_neg haw, if_neg (mt hkey.1 haw)]

theorem lookup_summaryRows (d : Dict (String × String × String) AccessCounts) (old : String)
    (aw : String × String) : Dict.lookup (old, aw) (summaryRows d old) = d.get? (old, aw) := by
  have hn : ((summaryRows d old).map Prod.fst).Nodup := (List.filter_sublist.map _).nodup d.nodup
  have hmem : ∀ c, Dict.lookup (old, aw) (summaryRows d old) = some c ↔ d.get? (old, aw) = some c := by
    intro c
    rw [← Dict.mem_iff_lookup hn, summaryRows, List.mem_filter, Dict.mem_items_iff]
    simp
  exact Option.ext hmem

theorem summaryRows_get?
    {step : Dict (String × String × String) AccessCounts → (String × String × String) × AccessCounts →
      Dict (String × String × String) AccessCounts} {f : Option AccessCounts → AccessCounts → AccessCounts}
    (hstep : ∀ d e, e.1.1 = old → ∀ aw, (step d e).get? (new, aw) =
      if aw = e.1.2 then some (f (d.get? (new, aw)) e.2) else d.get? (new, aw))
    (d : Dict (String × String × String) AccessCounts) (aw : String × String) :
    ((summaryRows d old).foldl step d).get? (new, aw) =
      (d.get? (old, aw)).elim (d.get? (new, aw)) fun c => some (f (d.get? (new, aw)) c) := by
  have hn : ((summaryRows d old).map Prod.fst).Nodup := (List.filter_sublist.map _).nodup d.nodup
  rw [foldl_summary_get? hstep hn (fun e he => beq_iff_eq.1 (List.mem_filter.1 he).2) d aw, lookup_summaryRows]

theorem moveSummaryRow_get? (hne : old ≠ new)
    (d : Dict (String × String × String) AccessCounts) (e : (String × String × String) × AccessCounts)
    (he : e.1.1 = old) (aw : String × String) : (moveSummaryRow new d e).get? (new, aw) =
      if aw = e.1.2 then some e.2 else d.get? (new, aw) := by
  have hkey : (new, aw) ≠ e.1 := fun h => hne (he ▸ (congrArg Prod.fst h).symm)
  rw [moveSummaryRow, Dict.get?_set, Dict.get?_erase_ne _ hkey]
  simp

theorem mergeSummaryRow_get? (hne : old ≠ new)
    (d : Dict (String × String × String) AccessCounts) (e : (String × String × String) × AccessCounts)
    (he : e.1.1 = old) (aw : String × String) : (mergeSummaryRow new d e).get? (new, aw) =
      if aw = e.1.2 then some ((d.get? (new, aw)).elim e.2 fun m => m.add e.2) else d.get? (new, aw) := by
  unfold mergeSummaryRow
  split
  · rename_i merged hmerged
    have hkey : (new, aw) ≠ e.1 := fun h => hne (he ▸ (congrArg Prod.fst h).symm)
    rw [Dict.get?_erase_ne _ hkey, Dict.get?_set]
    by_cases haw : aw = e.1.2
    · rw [if_pos haw, if_pos (by rw [haw]), haw, hmerged, Option.elim_some]
    · rw [if_neg haw, if_neg (fun h => haw (Prod.mk.inj h).2)]
  · rename_i hnone
    rw [moveSummaryRow_get? hne d e he]
    by_cases haw : aw = e.1.2
    · rw [if_pos haw, if_pos haw, haw, hnone, Option.elim_none]
    · rw [if_neg haw, if_neg haw]

/-- The numbers of a row. -/
def AccessCounts.values (c : AccessCounts) : ℤ × ℤ × ℤ :=
  (c.agentAccessCount.getD 0, c.bootAccessCount.getD 0, c.sessionCount.getD 0)

theorem values_add (a b : AccessCounts) : (a.add b).values = a.values + b.values := rfl

theorem accessCounts_eq (c : Surfaces) (entityId agent week : String) :
    accessCounts c entityId agent week =
      (c.accessSummary.get? (entityId, agent, week)).elim (0, 0, 0) AccessCounts.values := by
  unfold accessCounts
  cases c.accessSummary.get? (entityId, agent, week) <;> rfl

theorem mergeAccessSummary_counts (hne : old ≠ new)
    (h : c'.accessSummary = mergeAccessSummary c.accessSummary old new) (agent week : String) :
    accessCounts c' new agent week = accessCounts c new agent week + accessCounts c old agent week := by
  rw [accessCounts_eq, accessCounts_eq, accessCounts_eq, h, mergeAccessSummary,
    summaryRows_get? (f := fun a b => a.elim b fun m => m.add b) (mergeSummaryRow_get? hne)]
  rcases c.accessSummary.get? (old, agent, week) with _ | b
  · simp
  rcases c.accessSummary.get? (new, agent, week) with _ | a
  · simp
  · exact values_add a b

theorem renameSummary_counts (hne : old ≠ new)
    (h : renameSummary c.accessSummary old new = .ok c'.accessSummary) (agent week : String) :
    accessCounts c' new agent week = accessCounts c new agent week + accessCounts c old agent week := by
  unfold renameSummary at h
  split at h
  · cases h
  rename_i hfree
  rw [accessCounts_eq, accessCounts_eq, accessCounts_eq, ← Except.ok.inj h,
    summaryRows_get? (f := fun _ b => b) (moveSummaryRow_get? hne)]
  rcases hold : c.accessSummary.get? (old, agent, week) with _ | b
  · simp
  · -- The key was free, or the statement would have been refused.
    have hmem : ((old, agent, week), b) ∈ summaryRows c.accessSummary old :=
      List.mem_filter.2 ⟨Dict.mem_items_iff.2 hold, beq_self_eq_true _⟩
    have hnone : c.accessSummary.get? (new, agent, week) = none := by
      rcases hnew : c.accessSummary.get? (new, agent, week) with _ | a
      · rfl
      · exact (hfree (List.any_eq_true.2 ⟨_, hmem, Dict.contains_iff.2 ⟨a, hnew⟩⟩)).elim
    rw [hnone]
    simp

theorem countP_rename (hne : old ≠ new) (log : List AccessLogRow) :
    ((log.map (AccessLogRow.rename old new)).countP fun r => r.entityId == new) =
      (log.countP fun r => r.entityId == new) + log.countP fun r => r.entityId == old := by
  induction log with
  | nil => rfl
  | cons r log ih =>
    rw [List.map_cons, List.countP_cons, List.countP_cons, List.countP_cons, ih]
    simp only [AccessLogRow.rename, renameId, beq_iff_eq]
    by_cases hold : r.entityId = old
    · rw [if_pos hold, if_pos rfl, if_pos hold, if_neg (hold ▸ hne)]
      omega
    · rw [if_neg hold, if_neg hold]
      omega

end LlmGateway.Cortex
