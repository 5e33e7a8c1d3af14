import LlmGateway.Cortex.History
import LlmGateway.Foundations.Pointers

/-!
# Redirects of merged entities

A tombstone redirects to the entity that it was merged into, and `resolveEntityReference` follows one
redirect. A merge rewrites the assertions, the edges and the evidence that name its source, a rekey and a
retype those that name the old id; none of them rewrites the `merged_into` of earlier tombstones, and a merge
does not ask whether its target is a tombstone itself. So a redirect may come to lead to another tombstone,
to an id that is gone, or back.

`resolvable_throughout_iff` is the exact condition: a history keeps every reference resolving to a live
entity if and only if nothing that others redirect to is merged, rekeyed or retyped, nothing is merged into
a tombstone, and no entity is created as a tombstone without a live target.
-/

namespace LlmGateway.Cortex

open Pointers

variable {ρ : Type}

/-! ## Live entities and redirects -/

/-- The entity exists and is not a tombstone. -/
def Live (s : Store ρ) (id : String) : Prop :=
  ∃ row, s.entities.get? id = some row ∧ row.lifecycle ≠ some .merged

/-- The `merged_into` of a tombstone. -/
def redirect (s : Store ρ) (id : String) : Option String :=
  (s.entities.get? id).bind fun row =>
    if row.lifecycle = some .merged then mergedIntoTarget row.attributes else none

/-- The redirects form no cycle, and a reference to an entity or to a tombstone resolves to a live entity. -/
structure Resolvable (s : Store ρ) : Prop where
  acyclic : ∀ id, ¬ Relation.TransGen (Points (redirect s)) id id
  live : ∀ id row, s.entities.get? id = some row → ∀ resolveAliases label fileRefusal,
    ∃ ref, resolveEntityReference s id resolveAliases false label fileRefusal = .ok ref ∧
      Live s ref.entityId

/-- The attributes redirect to a live entity. -/
def HasLiveTarget (s : Store ρ) (attributes : List (String × Json)) : Prop :=
  ∃ target, mergedIntoTarget attributes = some target ∧ Live s target

/-- Every tombstone redirects to a live entity. -/
def Redirected (s : Store ρ) : Prop :=
  ∀ id row, s.entities.get? id = some row → row.lifecycle = some .merged → HasLiveTarget s row.attributes

variable {gone id : String} {row : Entity} {s s' : Store ρ} {T : Text}

theorem redirect_of_merged (h : s.entities.get? id = some row) (hmerged : row.lifecycle = some .merged) :
    redirect s id = mergedIntoTarget row.attributes := by
  rw [redirect, h, Option.bind_some, if_pos hmerged]

theorem redirect_of_live (h : Live s id) : redirect s id = none := by
  obtain ⟨row, hrow, hlive⟩ := h
  rw [redirect, hrow, Option.bind_some, if_neg hlive]

theorem resolveEntityReference_merged
    (h : s.entities.get? id = some row) (hmerged : row.lifecycle = some .merged) (resolveAliases : Bool)
    (label : String) (fileRefusal : Option String) :
    resolveEntityReference s id resolveAliases false label fileRefusal =
      .ok ⟨(mergedIntoTarget row.attributes).getD id, none⟩ := by
  simp only [resolveEntityReference, h, hmerged]
  rcases mergedIntoTarget row.attributes with _ | target <;> rfl

theorem resolveEntityReference_live (h : Live s id) (resolveAliases : Bool)
    (label : String) (fileRefusal : Option String) :
    resolveEntityReference s id resolveAliases false label fileRefusal = .ok ⟨id, none⟩ := by
  obtain ⟨row, hrow, hlive⟩ := h
  simp only [resolveEntityReference, hrow, if_neg hlive]
  rfl

theorem Redirected.settles (h : Redirected s) (id : String) : Settles (redirect s) id := by
  rcases hrow : s.entities.get? id with _ | row
  · exact .of_none (by rw [redirect, hrow, Option.bind_none])
  by_cases hmerged : row.lifecycle = some .merged
  · obtain ⟨target, htarget, hlive⟩ := h id row hrow hmerged
    exact .of_points ((redirect_of_merged hrow hmerged).trans htarget) (.of_none (redirect_of_live hlive))
  · exact .of_none (redirect_of_live ⟨row, hrow, hmerged⟩)

theorem resolvable_iff : Resolvable s ↔ Redirected s := by
  constructor
  · intro h id row hrow hmerged
    obtain ⟨ref, href, hlive⟩ := h.live id row hrow true "" none
    rw [resolveEntityReference_merged hrow hmerged] at href
    obtain rfl := Except.ok.inj href
    rcases htarget : mergedIntoTarget row.attributes with _ | target
    · -- Without a redirect the reference resolves to the tombstone itself.
      rw [htarget] at hlive
      obtain ⟨row', hrow', hlive⟩ := hlive
      obtain rfl := Option.some.inj (hrow.symm.trans hrow')
      exact absurd hmerged hlive
    · rw [htarget] at hlive
      exact ⟨target, htarget, hlive⟩
  · intro h
    refine ⟨fun id => (h.settles id).not_cycle, fun id row hrow resolveAliases label fileRefusal => ?_⟩
    by_cases hmerged : row.lifecycle = some .merged
    · obtain ⟨target, htarget, hlive⟩ := h id row hrow hmerged
      refine ⟨_, resolveEntityReference_merged hrow hmerged .., ?_⟩
      rw [htarget]
      exact hlive
    · have hlive : Live s id := ⟨row, hrow, hmerged⟩
      exact ⟨_, resolveEntityReference_live hlive .., hlive⟩

/-! ## What the calls do to the redirects -/

theorem Graduates.live (h : Graduates s s') (hlive : Live s id) :
    Live s' id := by
  obtain ⟨row, hrow, hlive⟩ := hlive
  obtain heq | ⟨e, now, -, -, he'⟩ := h id
  · exact ⟨row, heq.trans hrow, hlive⟩
  · exact ⟨_, he', by simp⟩

theorem Graduates.redirected (h : Graduates s s') (hs : Redirected s) :
    Redirected s' := by
  intro id row hrow hmerged
  obtain heq | ⟨e, now, -, -, he'⟩ := h id
  · obtain ⟨target, htarget, hlive⟩ := hs id row (heq.symm.trans hrow) hmerged
    exact ⟨target, htarget, h.live hlive⟩
  · obtain rfl := Option.some.inj (he'.symm.trans hrow)
    cases hmerged

/-- No tombstone redirects to the id. -/
def Unreferred (s : Store ρ) (id : String) : Prop := ∀ tombstone, redirect s tombstone ≠ some id

/-- The entities are as before, but for one id and for new ones. -/
def KeptBut (gone : String) (s s' : Store ρ) : Prop :=
  ∀ id row, id ≠ gone → s.entities.get? id = some row → s'.entities.get? id = some row

theorem KeptBut.live (h : KeptBut gone s s') (hne : id ≠ gone) (hlive : Live s id) : Live s' id := by
  obtain ⟨row, hrow, hlive⟩ := hlive
  exact ⟨row, h id row hne hrow, hlive⟩

theorem Redirected.of_redirect (hs : Redirected s) {target : String} (h : redirect s id = some target) :
    Live s target ∧ ∃ row, s.entities.get? id = some row ∧ row.lifecycle = some .merged ∧
      mergedIntoTarget row.attributes = some target := by
  obtain ⟨row, hrow, h⟩ := Option.bind_eq_some_iff.1 h
  split at h
  · rename_i hmerged
    obtain ⟨target', htarget', hlive⟩ := hs id row hrow hmerged
    obtain rfl := Option.some.inj (htarget'.symm.trans h)
    exact ⟨hlive, row, hrow, hmerged, h⟩
  · cases h

theorem Redirected.hasLiveTarget (hs : Redirected s) (hkept : KeptBut gone s s') (hgone : Unreferred s gone)
    (hrow : s.entities.get? id = some row) (hmerged : row.lifecycle = some .merged) :
    HasLiveTarget s' row.attributes := by
  obtain ⟨target, htarget, hlive⟩ := hs id row hrow hmerged
  refine ⟨target, htarget, hkept.live ?_ hlive⟩
  rintro rfl
  exact hgone id ((redirect_of_merged hrow hmerged).trans htarget)

theorem Redirected.unreferred (hs : Redirected s) (hs' : Redirected s')
    (hkept : KeptBut gone s s') (hgone : ¬ Live s' gone) : Unreferred s gone := by
  intro id hid
  obtain ⟨⟨row₀, hrow₀, hlive⟩, row, hrow, hmerged, htarget⟩ := hs.of_redirect hid
  have hne : id ≠ gone := by
    rintro rfl
    obtain rfl := Option.some.inj (hrow.symm.trans hrow₀)
    exact hlive hmerged
  obtain ⟨target, htarget', hlive'⟩ := hs' id row (hkept id row hne hrow) hmerged
  obtain rfl := Option.some.inj (htarget.symm.trans htarget')
  exact hgone hlive'

theorem Redirected.unreferred_of_free (hs : Redirected s) (hfree : s.entities.get? id = none) : Unreferred s id := by
  intro tombstone h
  obtain ⟨⟨row, hrow, -⟩, -⟩ := hs.of_redirect h
  rw [hfree] at hrow
  cases hrow

/-- **A creation** keeps the redirects unless it makes a tombstone without a live target. -/
theorem Born.redirected_iff {body : EntityCreate} (h : Born body id s s')
    (hfree : s.entities.get? id = none) (hs : Redirected s) :
    Redirected s' ↔ (birthLifecycle body.status = .merged → HasLiveTarget s body.attributes) := by
  have hkept : KeptBut id s s' := fun id' row hne hrow => by
    rw [h.entities, Dict.get?_set_ne _ hne, hrow]
  have hself : s'.entities.get? id = some (body.row id) := by
    rw [h.entities, Dict.get?_set, if_pos rfl]
  constructor
  · intro hs' hborn
    obtain ⟨target, htarget, row, hrow, hlive⟩ := hs' id _ hself (congrArg some hborn)
    refine ⟨target, htarget, row, ?_, hlive⟩
    rw [h.entities, Dict.get?_set] at hrow
    split at hrow
    · -- A new tombstone is not its own live target.
      obtain rfl := Option.some.inj hrow
      exact absurd (congrArg some hborn) hlive
    · exact hrow
  · intro hborn id' row hrow hmerged
    rw [h.entities, Dict.get?_set] at hrow
    split at hrow
    · obtain rfl := Option.some.inj hrow
      obtain ⟨target, htarget, hlive⟩ := hborn (Option.some.inj hmerged)
      have hne : target ≠ id := by
        rintro rfl
        obtain ⟨row, hrow, -⟩ := hlive
        rw [hfree] at hrow
        cases hrow
      exact ⟨target, htarget, hkept.live hne hlive⟩
    · exact hs.hasLiveTarget hkept (hs.unreferred_of_free hfree) hrow hmerged

/-- **A rekey or a retype** keeps the redirects unless one leads to the old id. -/
theorem Moved.redirected_iff {oldId newId : String}
    (h : Moved row oldId newId s s') (hs : Redirected s) : Redirected s' ↔ Unreferred s oldId := by
  obtain ⟨row', hlifecycle, hattributes, hentities⟩ := h.entities
  have hkept : KeptBut oldId s s' := by
    intro id r hne hr
    have hnew : id ≠ newId := by
      rintro rfl
      rw [h.free] at hr
      cases hr
    rw [hentities, if_neg hnew, if_neg hne, hr]
  have hgone : ¬ Live s' oldId := by
    rintro ⟨r, hr, -⟩
    have hne : oldId ≠ newId := by
      rintro rfl
      exact Option.some_ne_none row (h.loaded.symm.trans h.free)
    rw [hentities, if_neg hne, if_pos rfl] at hr
    cases hr
  constructor
  · exact fun hs' => hs.unreferred hs' hkept hgone
  · intro hfree id r hr hmerged
    rw [hentities] at hr
    split at hr
    · -- The moved entity may be a tombstone: it redirects as before.
      obtain rfl := Option.some.inj hr
      rw [hattributes]
      exact hs.hasLiveTarget hkept hfree h.loaded (hlifecycle ▸ hmerged)
    · split at hr
      · cases hr
      · exact hs.hasLiveTarget hkept hfree hr hmerged

theorem mergedIntoTarget_tombstone (source : Entity) {targetId : String} (h : targetId ≠ "")
    (now : String) : mergedIntoTarget (tombstone source targetId now).attributes = some targetId := by
  simp [mergedIntoTarget, tombstone, Json.get_set, Json.truthy, Json.text, h]

/-- **A merge** keeps the redirects exactly when its target is live and none leads to its source. -/
theorem Merged.redirected_iff {sourceId targetId now : String}
    (h : Merged T s sourceId targetId now s') (hdiffer : sourceId ≠ targetId) (htarget : targetId ≠ "")
    (hs : Redirected s) : Redirected s' ↔ Live s targetId ∧ Unreferred s sourceId := by
  obtain ⟨source, hsource, hentities⟩ := h.entities
  have hkept : KeptBut sourceId s s' := fun id row hne hrow => by
    rw [hentities, Dict.get?_set_ne _ hne, hrow]
  have hself : s'.entities.get? sourceId = some (tombstone source targetId now) := by
    rw [hentities, Dict.get?_set, if_pos rfl]
  have hgone : ¬ Live s' sourceId := by
    rintro ⟨row, hrow, hlive⟩
    obtain rfl := Option.some.inj (hself.symm.trans hrow)
    exact hlive rfl
  constructor
  · intro hs'
    refine ⟨?_, hs.unreferred hs' hkept hgone⟩
    obtain ⟨target, htarget', row, hrow, hlive⟩ := hs' sourceId _ hself rfl
    rw [mergedIntoTarget_tombstone source htarget] at htarget'
    obtain rfl := Option.some.inj htarget'
    rw [hentities, Dict.get?_set_ne _ hdiffer.symm] at hrow
    exact ⟨row, hrow, hlive⟩
  · rintro ⟨hlive, hfree⟩ id row hrow hmerged
    rw [hentities, Dict.get?_set] at hrow
    split at hrow
    · obtain rfl := Option.some.inj hrow
      exact ⟨targetId, mergedIntoTarget_tombstone source htarget now, hkept.live hdiffer.symm hlive⟩
    · exact hs.hasLiveTarget hkept hfree hrow hmerged

/-! ## The exact condition -/

/-- The call leaves every tombstone a live target. -/
def Action.KeepsRedirects (T : Text) (s : Store ρ) : Action ρ → Prop
  | .createEntity body =>
    (∃ id, body.Accepted s id) → birthLifecycle body.status = .merged → HasLiveTarget s body.attributes
  | .entityMerge sourceId targetId now failure =>
    MergeAccepted T s sourceId targetId now failure → Live s targetId ∧ Unreferred s sourceId
  | a => ∀ row oldId newId, a.Moves s row oldId newId → Unreferred s oldId

theorem Action.Refused.keepsRedirects {a : Action ρ} (h : a.Refused T s) :
    a.KeepsRedirects T s := by
  cases a with
  | createEntity body | entityMerge sourceId targetId now failure => exact fun hacc => absurd hacc h
  | entityRekey | entityRetype => exact fun row oldId newId hm => absurd ⟨row, oldId, newId, hm⟩ h
  | _ => exact fun _ _ _ hm => hm.elim

theorem Action.Moves.keepsRedirects_iff {oldId newId : String}
    {a : Action ρ} (h : a.Moves s row oldId newId) : a.KeepsRedirects T s ↔ Unreferred s oldId := by
  cases a with
  | entityRekey | entityRetype => exact h.forall_iff fun oldId _ => Unreferred s oldId
  | _ => exact h.elim

theorem redirected_apply_iff (T : Text) (hs : WellFormed s) (hr : Redirected s)
    (a : Action ρ) : Redirected (apply T s a) ↔ a.KeepsRedirects T s := by
  have h := apply_change T hs a
  generalize apply T s a = s' at h
  cases h with
  | refused hno => exact iff_of_true hr hno.keepsRedirects
  | created _ h => exact iff_of_true (h.confined.graduates.redirected hr) fun _ _ _ hm => hm.elim
  | superseded _ _ h => exact iff_of_true (h.confined.graduates.redirected hr) fun _ _ _ hm => hm.elim
  | updated _ h => exact iff_of_true (h.confined.graduates.redirected hr) fun _ _ _ hm => hm.elim
  | @born body id s' hacc h =>
    rw [h.redirected_iff hacc.free hr]
    exact ⟨fun hborn _ => hborn, fun hborn => hborn ⟨id, hacc⟩⟩
  | moved hmoves h => rw [h.redirected_iff hr, hmoves.keepsRedirects_iff]
  | @merged sourceId targetId now failure s' hacc h =>
    have htarget : targetId ≠ "" := by
      rintro rfl
      obtain ⟨-, target, -, ht, -⟩ := hacc.loaded
      exact Option.some_ne_none target (ht.symm.trans hs.ids)
    rw [h.redirected_iff hacc.differ htarget hr]
    exact ⟨fun hkeep _ => hkeep, fun hkeep => hkeep hacc⟩

/-- **Identity resolution.** In a history the redirects form no cycle at any time, and every reference to an
entity or a tombstone resolves to a live entity, if and only if

* an entity that is merged, rekeyed or retyped has no tombstone that redirects to it,
* a merge has a target that is live, and
* an entity that is created as a tombstone redirects to a live entity. -/
theorem resolvable_throughout_iff (T : Text) (history : List (Action ρ)) :
    System.Throughout (apply T) Resolvable Store.empty history ↔
      System.EachStep (apply T) (fun s a => a.KeepsRedirects T s) Store.empty history := by
  refine throughout_history_iff T ?_ (fun s a hs hr => ?_) history
  · exact resolvable_iff.2 fun id row hrow => by cases hrow
  · rw [resolvable_iff]
    exact redirected_apply_iff T hs (resolvable_iff.1 hr) a

/-- Two entities, merged into one another. -/
def mutualMerge : List (Action Unit) :=
  [.createEntity { id := some "project:gateway", type := "project", name := "Gateway", aliases := [],
                   attributes := [], status := none, slug := "", refused := none,
                   now := "2026-01-01T00:00:00Z" },
   .createEntity { id := some "project:proxy", type := "project", name := "Proxy", aliases := [],
                   attributes := [], status := none, slug := "", refused := none,
                   now := "2026-01-01T00:00:01Z" },
   .entityMerge "project:gateway" "project:proxy" "2026-01-01T00:00:02Z" none,
   .entityMerge "project:proxy" "project:gateway" "2026-01-01T00:00:03Z" none]

theorem redirect_mutualMerge (T : Text) :
    redirect (mutualMerge.foldl (apply T) Store.empty) "project:gateway" = some "project:proxy" ∧
      redirect (mutualMerge.foldl (apply T) Store.empty) "project:proxy" = some "project:gateway" :=
  ⟨rfl, rfl⟩

/-- Whatever the text functions are, the two redirects form a cycle. -/
theorem mutualMerge_not_resolvable :
    ¬ ∃ T : Text, Resolvable (mutualMerge.foldl (apply T) Store.empty) := by
  rintro ⟨T, h⟩
  obtain ⟨hto, hback⟩ := redirect_mutualMerge T
  exact h.acyclic "project:gateway" (.tail (.single hto) hback)

end LlmGateway.Cortex
