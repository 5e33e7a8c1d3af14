import LlmGateway.DispatchMonitor.Aliases

/-!
# The rows and the redirects behind `ensure_canonical_row`

A merge takes a live row away from its id and redirects the id to the key. Every redirected id resolves to the key of
a row (`Grounded`): the merges and the redirects of `ensure_canonical_row` keep this but for the ids that resolve to
its key (`GroundedFor`), and in the end there is a row under the key.
-/

namespace LlmGateway.DispatchMonitor

open SdkState Pointers

namespace SdkFold

variable {x y z : SdkFold} {key : String}

/-! ## One merge -/

theorem get?_openRow_self (x : SdkFold) (key : String) :
    (x.openRow key).dispatches.get? key = some ((x.dispatches.get? key).getD (.new key)) := by
  rw [openRow, Dict.contains]
  cases h : x.dispatches.get? key with
  | none => exact Dict.get?_set_self ..
  | some row => exact h

theorem get?_openRow_ne {j : String} (h : j ≠ key) (x : SdkFold) :
    (x.openRow key).dispatches.get? j = x.dispatches.get? j := by
  rw [openRow]
  split
  · rfl
  · exact Dict.get?_set_ne _ h _

/-- A live row is merged into the row of the key. -/
def mergeRow (key alt : String) (altRow : SdkState) (x : SdkFold) : SdkFold :=
  let x := (x.openRow key).update key fun row => row.merge altRow
  { x with dispatches := x.dispatches.erase alt, redirects := Aliases.register x.redirects alt key }

variable {alt : String} {altRow : SdkState}

theorem mergeAlt_of_live (hne : alt ≠ key)
    (hrow : x.dispatches.get? alt = some altRow) (hlive : altRow.isLive = true) :
    mergeAlt key x alt = mergeRow key alt altRow x := by
  rw [mergeAlt, if_neg hne, hrow]
  dsimp only
  rw [hlive]
  rfl

theorem redirects_openRow (x : SdkFold) (key : String) : (x.openRow key).redirects = x.redirects := by
  unfold openRow
  split <;> rfl

theorem redirects_mergeAlt (hne : alt ≠ key)
    (hrow : x.dispatches.get? alt = some altRow) (hlive : altRow.isLive = true) :
    (mergeAlt key x alt).redirects = Aliases.register x.redirects alt key := by
  rw [mergeAlt_of_live hne hrow hlive, mergeRow]
  dsimp only
  rw [Edits.redirects_update, redirects_openRow]

theorem get?_mergeAlt (hne : alt ≠ key) (hrow : x.dispatches.get? alt = some altRow)
    (hlive : altRow.isLive = true) (j : String) :
    (mergeAlt key x alt).dispatches.get? j =
      if j = alt then none
      else if j = key then some (((x.dispatches.get? key).getD (.new key)).merge altRow)
      else x.dispatches.get? j := by
  rw [mergeAlt_of_live hne hrow hlive]
  refine (Dict.get?_erase ..).trans ?_
  split
  · rfl
  · rw [get?_update, get?_openRow_self]
    split
    · rfl
    · exact get?_openRow_ne ‹_› x

theorem mergeAlt_of_not_live
    (h : alt = key ∨ ∀ altRow, x.dispatches.get? alt = some altRow → altRow.isLive = false) : mergeAlt key x alt = x := by
  rw [mergeAlt]
  split
  · rfl
  · rename_i hne
    split
    · rfl
    · rename_i altRow hrow
      rw [if_pos (by simp [(h.resolve_left hne) altRow hrow])]

theorem mergeAlt_cases (x : SdkFold) (key alt : String) :
    mergeAlt key x alt = x ∨ ∃ altRow, alt ≠ key ∧ x.dispatches.get? alt = some altRow ∧ altRow.isLive = true := by
  by_cases hne : alt = key
  · exact .inl (mergeAlt_of_not_live (.inl hne))
  cases hrow : x.dispatches.get? alt with
  | none => exact .inl (mergeAlt_of_not_live (.inr fun altRow h => (by rw [hrow] at h; cases h)))
  | some altRow =>
    cases hlive : altRow.isLive with
    | false =>
      refine .inl (mergeAlt_of_not_live (.inr fun altRow' h => ?_))
      obtain rfl := Option.some.inj (hrow.symm.trans h)
      exact hlive
    | true => exact .inr ⟨altRow, hne, rfl, hlive⟩

/-! ## Redirected ids have rows -/

/-- Chains end, and a redirected id resolves to the key of a row. -/
structure Grounded (x : SdkFold) : Prop where
  settled : Aliases.Settled x.redirects
  grounded : ∀ id, x.redirects.get? id ≠ none → x.dispatches.contains (x.resolve id) = true

/-- The same, but for the ids that resolve to the key. -/
structure GroundedFor (key : String) (x : SdkFold) : Prop where
  settled : Aliases.Settled x.redirects
  key_end : x.redirects.get? key = none
  grounded : ∀ id, x.redirects.get? id ≠ none → x.resolve id = key ∨ x.dispatches.contains (x.resolve id) = true

theorem grounded_new : Grounded new :=
  ⟨fun _ => .of_none rfl, fun _ h => absurd rfl h⟩

theorem Grounded.groundedFor (h : x.Grounded) (preferred : String) : GroundedFor (x.resolve preferred) x :=
  ⟨h.settled, Aliases.get?_resolve h.settled preferred, fun id hid => .inr (h.grounded id hid)⟩

namespace GroundedFor

theorem register (h : GroundedFor key x) {alt : String} (hy : y.redirects = Aliases.register x.redirects alt key)
    (hrows : ∀ j, j ≠ alt → x.dispatches.contains j = true → y.dispatches.contains j = true) : GroundedFor key y := by
  have hresolve : ∀ id, y.resolve id = Aliases.resolve (Aliases.register x.redirects alt key) id := fun id => by
    rw [resolve, hy]
  refine ⟨hy ▸ Aliases.settled_register h.settled h.key_end alt, ?_, fun id hid => ?_⟩
  · rw [hy, Aliases.get?_register h.settled h.key_end, if_neg fun h => h.2 h.1.symm]
    exact h.key_end
  rw [hresolve]
  by_cases hl : Leads x.redirects.get? id alt
  · exact .inl (Aliases.resolve_register_of_leads h.settled h.key_end hl)
  rw [Aliases.resolve_register_of_not h.settled h.key_end hl]
  have hne : id ≠ alt := fun heq => hl (heq ▸ .refl)
  rw [hy, Aliases.get?_register h.settled h.key_end, if_neg fun h => hne h.1] at hid
  refine (h.grounded id hid).imp_right (hrows _ fun heq => hl ?_)
  rw [← heq]
  exact Aliases.leads_resolve h.settled id

theorem mergeAlt (h : GroundedFor key x) (alt : String) : GroundedFor key (mergeAlt key x alt) := by
  obtain heq | ⟨altRow, hne, hrow, hlive⟩ := mergeAlt_cases x key alt
  · rw [heq]
    exact h
  refine h.register (redirects_mergeAlt hne hrow hlive) fun j hj hrowj => ?_
  rw [Dict.contains, get?_mergeAlt hne hrow hlive, if_neg hj]
  split
  · rfl
  · exact hrowj

theorem redirect (h : GroundedFor key x) (id : String) : GroundedFor key (redirect key x id) :=
  h.register rfl fun _ _ hrow => hrow

theorem foldl {α : Type} {f : SdkFold → α → SdkFold} (hf : ∀ x a, GroundedFor key x → GroundedFor key (f x a))
    (l : List α) (h : GroundedFor key x) : GroundedFor key (l.foldl f x) := by
  induction l generalizing x with
  | nil => exact h
  | cons a l ih => exact ih (hf x a h)

theorem openRow (h : GroundedFor key x) : Grounded (x.openRow key) := by
  have hresolve : ∀ id, (x.openRow key).resolve id = x.resolve id := fun id => by
    rw [resolve, redirects_openRow]
    rfl
  refine ⟨by rw [redirects_openRow]; exact h.settled, fun id hid => ?_⟩
  rw [redirects_openRow] at hid
  rw [hresolve, Dict.contains]
  by_cases hk : x.resolve id = key
  · rw [hk, get?_openRow_self]
    rfl
  · rw [get?_openRow_ne hk]
    exact (h.grounded id hid).resolve_left hk

end GroundedFor

theorem Grounded.ensureCanonicalRow (h : x.Grounded) (preferred : String) (ids : List String) :
    (x.ensureCanonicalRow preferred ids).Grounded :=
  ((h.groundedFor preferred).foldl (fun _ alt h => h.mergeAlt alt) _ |>.foldl
    (fun _ id h => h.redirect id) ids).openRow

theorem Grounded.edits {skip : Option String} (h : x.Grounded) (he : Edits skip x y) : y.Grounded := by
  refine ⟨he.redirects ▸ h.settled, fun id hid => ?_⟩
  rw [he.redirects] at hid
  rw [he.contains, resolve, he.redirects]
  exact h.grounded id hid

/-! ### Rows that are opened -/

theorem ensureRow_cases (h : x.Grounded) (id : String) :
    (x.ensureRow id).1 = x ∨ x.dispatches.get? id = none ∧ x.redirects.get? id = none ∧
      (x.ensureRow id).1 = { x with dispatches := x.dispatches.set id (.new id) } := by
  unfold ensureRow
  dsimp only
  split
  · exact .inl rfl
  · rename_i hrow
    have hend : x.redirects.get? id = none := by
      by_contra hid
      exact hrow (h.grounded id hid)
    have hresolve : x.resolve id = id := Aliases.resolve_of_none hend
    rw [hresolve, Dict.contains, Option.not_isSome_iff_eq_none] at hrow
    rw [Aliases.register_eq h.settled hend, if_pos rfl]
    exact .inr ⟨hrow, hend, rfl⟩

theorem Grounded.ensureRow (h : x.Grounded) (id : String) : (x.ensureRow id).1.Grounded := by
  obtain heq | ⟨hrow, hend, heq⟩ := ensureRow_cases h id
  · rw [heq]
    exact h
  · rw [heq]
    refine ⟨h.settled, fun j hj => Dict.contains_set (h.grounded j hj) _ _⟩

end SdkFold

end LlmGateway.DispatchMonitor
