import LlmGateway.DispatchMonitor.Calls
import LlmGateway.Foundations.Pointers

/-!
# Where the redirects lead

The redirects are pointers between ids. Every chain of redirects ends (`Settled`): then `resolve` is the end of the
chain, and `register` writes one redirect to an end. In the fold, a redirected id also resolves to the key of a row
(`Grounded`), so that no row is written over when one is opened.
-/

namespace LlmGateway.DispatchMonitor

open Pointers Relation

namespace Aliases

variable {d : Dict String String} {alt key id : String}

/-- Every chain of redirects ends. -/
def Settled (d : Dict String String) : Prop := ∀ id, Settles d.get? id

theorem mem_keys_of_leads {j : String} (h : TransGen (Points d.get?) id j) : id ∈ d.items.map Prod.fst := by
  obtain ⟨k, hk, -⟩ := TransGen.head'_iff.1 h
  exact List.mem_map.2 ⟨(id, k), Dict.mem_items_iff.2 hk, rfl⟩

theorem follow_ends (h : Settled d) (n : ℕ) (seen : List String) (current : String) (hseen : seen.Nodup)
    (hleads : ∀ s ∈ seen, TransGen (Points d.get?) s current) (hn : d.items.length < seen.length + n) :
    Leads d.get? current (follow d n seen current) ∧ d.get? (follow d n seen current) = none := by
  induction n generalizing seen current with
  | zero =>
    -- More ids than there are redirects cannot have been seen.
    have hle := (hseen.subperm fun s hs => mem_keys_of_leads (hleads s hs)).length_le
    rw [List.length_map] at hle
    omega
  | succ n ih =>
    unfold follow
    cases hnext : d.get? current with
    | none => exact ⟨.refl, hnext⟩
    | some next =>
      have hnew : current ∉ seen := fun hmem => (h current).not_cycle (hleads current hmem)
      have hpoints : Points d.get? current next := hnext
      have hleads' : ∀ s ∈ current :: seen, TransGen (Points d.get?) s next := by
        intro s hs
        obtain rfl | hs := List.mem_cons.1 hs
        · exact .single hpoints
        · exact (hleads s hs).tail hpoints
      have hend := ih (current :: seen) next (List.nodup_cons.2 ⟨hnew, hseen⟩) hleads'
        (by rw [List.length_cons]; omega)
      dsimp only
      rw [if_neg (by simpa using hnew)]
      exact ⟨.head hpoints hend.1, hend.2⟩

theorem leads_resolve (h : Settled d) (id : String) : Leads d.get? id (resolve d id) :=
  (follow_ends h _ [] id List.nodup_nil (fun _ hs => by cases hs) (by simp)).1

theorem get?_resolve (h : Settled d) (id : String) : d.get? (resolve d id) = none :=
  (follow_ends h _ [] id List.nodup_nil (fun _ hs => by cases hs) (by simp)).2

theorem resolve_eq_of_leads (h : Settled d) (hl : Leads d.get? id key) (hk : d.get? key = none) : resolve d id = key :=
  (leads_resolve h id).end_unique (get?_resolve h id) hl hk

theorem resolve_of_none (h : d.get? id = none) : resolve d id = id := by
  rw [resolve, follow, h]

theorem resolve_resolve (h : Settled d) (id : String) : resolve d (resolve d id) = resolve d id :=
  resolve_of_none (get?_resolve h id)

theorem resolve_eq_resolve (h : Settled d) (hl : Leads d.get? id alt) : resolve d id = resolve d alt :=
  resolve_eq_of_leads h (hl.trans (leads_resolve h alt)) (get?_resolve h alt)

/-! ## A new redirect -/

theorem get?_set_eq_update (d : Dict String String) (alt key : String) :
    (d.set alt key).get? = Function.update d.get? alt (some key) := by
  funext j
  rw [Dict.get?_set, Function.update_apply]

theorem settled_set (h : Settled d) (hk : d.get? key = none) (hne : alt ≠ key) : Settled (d.set alt key) := by
  refine settles_of_redirect (fun j => ?_) h
  rw [Dict.get?_set]
  split
  · exact .inr ⟨key, rfl, by rw [Dict.get?_set_ne _ (Ne.symm hne), hk]⟩
  · exact .inl rfl

theorem register_eq (h : Settled d) (hk : d.get? key = none) :
    register d alt key = if alt = key then d else d.set alt key := by
  unfold register
  dsimp only
  rw [resolve_of_none hk]
  split
  · rfl
  · rename_i hne
    have hend : (d.set alt key).get? key = none := by rw [Dict.get?_set_ne _ (Ne.symm hne), hk]
    have hpoints : Points (d.set alt key).get? alt key := Dict.get?_set_self d alt key
    rw [if_pos (resolve_eq_of_leads (settled_set h hk hne) (.single hpoints) hend)]

theorem settled_register (h : Settled d) (hk : d.get? key = none) (alt : String) : Settled (register d alt key) := by
  rw [register_eq h hk]
  split
  · exact h
  · exact settled_set h hk ‹_›

theorem get?_register (h : Settled d) (hk : d.get? key = none) (alt id : String) :
    (register d alt key).get? id = if id = alt ∧ alt ≠ key then some key else d.get? id := by
  rw [register_eq h hk]
  split
  · rename_i heq
    rw [if_neg fun h => h.2 heq]
  · rename_i hne
    rw [Dict.get?_set]
    simp only [ne_eq, hne, not_false_eq_true, and_true]

theorem resolve_register_of_leads (h : Settled d) (hk : d.get? key = none) (hl : Leads d.get? id alt) :
    resolve (register d alt key) id = key := by
  rw [register_eq h hk]
  split
  · rename_i heq
    exact resolve_eq_of_leads h (heq ▸ hl) hk
  · rename_i hne
    refine resolve_eq_of_leads (settled_set h hk hne) ?_ (by rw [Dict.get?_set_ne _ (Ne.symm hne), hk])
    have hpoints : Points (d.set alt key).get? alt key := Dict.get?_set_self d alt key
    have hl' : Leads (d.set alt key).get? id alt := by
      rw [get?_set_eq_update]
      exact hl.update _
    exact .tail hl' hpoints

theorem resolve_register_of_not (h : Settled d) (hk : d.get? key = none) (hl : ¬ Leads d.get? id alt) :
    resolve (register d alt key) id = resolve d id := by
  rw [register_eq h hk]
  split
  · rfl
  · rename_i hne
    have hend : resolve d id ≠ alt := fun h' => hl (h' ▸ leads_resolve h id)
    refine resolve_eq_of_leads (settled_set h hk hne) ?_ (by rw [Dict.get?_set_ne _ hend, get?_resolve h])
    rw [get?_set_eq_update]
    exact (leads_resolve h id).update_of_not hl _

theorem resolve_register (h : Settled d) (hk : d.get? key = none) (halt : d.get? alt = none ∨ resolve d alt = key)
    (id : String) :
    resolve (register d alt key) id = if resolve d id = resolve d alt then key else resolve d id := by
  by_cases hl : Leads d.get? id alt
  · rw [resolve_register_of_leads h hk hl, if_pos (resolve_eq_resolve h hl)]
  · rw [resolve_register_of_not h hk hl]
    split
    · rename_i heq
      obtain hend | hkey := halt
      · rw [resolve_of_none hend] at heq
        exact absurd (heq ▸ leads_resolve h id) hl
      · exact heq.trans hkey
    · rfl

end Aliases

end LlmGateway.DispatchMonitor
