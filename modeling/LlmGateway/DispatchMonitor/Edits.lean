import LlmGateway.DispatchMonitor.Verdict

/-!
# What the handlers do to the rows

Beside the merges of `ensure_canonical_row` and the rows that are opened, a handler edits the fold: the keys of the
rows and the redirects stay, every row with a terminal is frozen and every live row stays blank (`Edits`). So a
relation between folds that contains the edits, the opened rows and the merges of a record relates the fold before
the record to the fold behind it (`next_rel`).
-/

namespace LlmGateway.DispatchMonitor

open SdkState

namespace SdkFold

variable {x y z : SdkFold} {key : String} {skip : Option String}

/-! ## Folds that keep their terminal rows -/

/-- The live rows are blank. -/
def AllBlank (x : SdkFold) : Prop := ∀ key row, x.dispatches.get? key = some row → row.Blank

/-- The terminal rows stay and are frozen, but for the row under `skip`. -/
def Kept (skip : Option String) (x y : SdkFold) : Prop :=
  ∀ key row, some key ≠ skip → x.dispatches.get? key = some row → row.isLive = false →
    ∃ row', y.dispatches.get? key = some row' ∧ Frozen row row'

/-- The terminal rows are kept and the live ones stay blank. -/
def Carries (skip : Option String) (x y : SdkFold) : Prop := x.AllBlank → y.AllBlank ∧ Kept skip x y

theorem get?_update (x : SdkFold) (key : String) (f : SdkState → SdkState) (j : String) :
    (x.update key f).dispatches.get? j = if j = key then (x.dispatches.get? key).map f else x.dispatches.get? j := by
  unfold update
  split
  · rename_i h
    split
    · rename_i hj
      rw [hj, h]
      rfl
    · rfl
  · rename_i row h
    rw [h]
    exact Dict.get?_set ..

namespace Carries

theorem refl (skip : Option String) (x : SdkFold) : Carries skip x x :=
  fun hb => ⟨hb, fun _ row _ h _ => ⟨row, h, .refl row⟩⟩

theorem trans (h : Carries skip x y) (h' : Carries skip y z) : Carries skip x z := by
  intro hb
  obtain ⟨hby, hxy⟩ := h hb
  obtain ⟨hbz, hyz⟩ := h' hby
  refine ⟨hbz, fun key row hskip hrow hdead => ?_⟩
  obtain ⟨row', hrow', hfrozen⟩ := hxy key row hskip hrow hdead
  obtain ⟨row'', hrow'', hfrozen'⟩ := hyz key row' hskip hrow' (hfrozen.isLive.trans hdead)
  exact ⟨row'', hrow'', hfrozen.trans hfrozen'⟩

theorem skipped (h : Carries none x y) (skip : Option String) : Carries skip x y :=
  fun hb => ⟨(h hb).1, fun key row _ => (h hb).2 key row (Option.some_ne_none key)⟩

theorem of_live (h : Carries (some key) x y) (hlive : ∀ row, x.dispatches.get? key = some row → row.isLive = true) :
    Carries none x y := by
  intro hb
  refine ⟨(h hb).1, fun j row _ hrow hdead => (h hb).2 j row ?_ hrow hdead⟩
  intro hj
  cases hj
  rw [hlive row hrow] at hdead
  cases hdead

theorem of_dispatches (h : y.dispatches = x.dispatches) : Carries skip x y := by
  intro hb
  rw [AllBlank, Kept, h]
  exact ⟨hb, fun _ row _ hrow _ => ⟨row, hrow, .refl row⟩⟩

variable {f : SdkState → SdkState}

theorem update (hf : Steady f) (key : String) : Carries skip x (x.update key f) := by
  intro hb
  refine ⟨fun j row hrow => ?_, fun j row _ hrow hdead => ?_⟩
  · rw [get?_update] at hrow
    split at hrow
    · obtain ⟨row', hrow', rfl⟩ := Option.map_eq_some_iff.1 hrow
      exact hf.blank row' (hb key row' hrow')
    · exact hb j row hrow
  · rw [get?_update]
    split
    · rename_i hj
      subst hj
      exact ⟨f row, by rw [hrow]; rfl, hf.frozen row hdead⟩
    · exact ⟨row, hrow, .refl row⟩

theorem update_skip (hf : ∀ row, x.dispatches.get? key = some row → row.Blank → (f row).Blank) :
    Carries (some key) x (x.update key f) := by
  intro hb
  refine ⟨fun j row hrow => ?_, fun j row hj hrow _ => ?_⟩
  · rw [get?_update] at hrow
    split at hrow
    · obtain ⟨row', hrow', rfl⟩ := Option.map_eq_some_iff.1 hrow
      exact hf row' hrow' (hb key row' hrow')
    · exact hb j row hrow
  · rw [get?_update, if_neg fun h => hj (congrArg some h)]
    exact ⟨row, hrow, .refl row⟩

theorem mapVal (hf : Steady f) :
    Carries skip x { x with dispatches := x.dispatches.mapVal fun _ row => f row } := by
  intro hb
  refine ⟨fun j row hrow => ?_, fun j row _ hrow hdead => ?_⟩
  · rw [Dict.get?_mapVal] at hrow
    obtain ⟨row', hrow', rfl⟩ := Option.map_eq_some_iff.1 hrow
    exact hf.blank row' (hb j row' hrow')
  · exact ⟨f row, by rw [Dict.get?_mapVal, hrow]; rfl, hf.frozen row hdead⟩

/-- A new row under a key that has none. -/
theorem set_new (h : x.dispatches.get? key = none) (hy : y.dispatches = x.dispatches.set key (.new key)) :
    Carries skip x y := by
  intro hb
  rw [AllBlank, Kept, hy]
  refine ⟨fun j row hrow => ?_, fun j row _ hrow _ => ?_⟩
  · rw [Dict.get?_set] at hrow
    split at hrow
    · obtain rfl := Option.some.inj hrow
      exact blank_new key
    · exact hb j row hrow
  · rw [Dict.get?_set]
    split
    · rename_i hj
      rw [hj, h] at hrow
      cases hrow
    · exact ⟨row, hrow, .refl row⟩

theorem openRow (x : SdkFold) (key : String) : Carries skip x (x.openRow key) := by
  rw [SdkFold.openRow]
  split
  · exact .refl _ x
  · rename_i h
    exact set_new (by simpa [Dict.contains] using h) rfl

theorem foldl {α : Type} {f : SdkFold → α → SdkFold} (hf : ∀ x a, Carries skip x (f x a)) (l : List α) (x : SdkFold) :
    Carries skip x (l.foldl f x) := by
  induction l generalizing x with
  | nil => exact .refl _ x
  | cons a l ih => exact (hf x a).trans (ih _)

end Carries

/-! ## Edits -/

/-- The keys and the redirects stay, terminal rows are kept and live rows stay blank. -/
structure Edits (skip : Option String) (x y : SdkFold) : Prop where
  carries : Carries skip x y
  redirects : y.redirects = x.redirects
  contains : ∀ key, y.dispatches.contains key = x.dispatches.contains key

namespace Edits

theorem refl (skip : Option String) (x : SdkFold) : Edits skip x x := ⟨.refl _ x, rfl, fun _ => rfl⟩

theorem trans (h : Edits skip x y) (h' : Edits skip y z) : Edits skip x z :=
  ⟨h.carries.trans h'.carries, h'.redirects.trans h.redirects, fun key => (h'.contains key).trans (h.contains key)⟩

theorem skipped (h : Edits none x y) (skip : Option String) : Edits skip x y :=
  ⟨h.carries.skipped skip, h.redirects, h.contains⟩

theorem of_live (h : Edits (some key) x y) (hlive : ∀ row, x.dispatches.get? key = some row → row.isLive = true) :
    Edits none x y :=
  ⟨h.carries.of_live hlive, h.redirects, h.contains⟩

theorem of_dispatches (h : y.dispatches = x.dispatches) (h' : y.redirects = x.redirects) : Edits skip x y :=
  ⟨.of_dispatches h, h', fun _ => by rw [h]⟩

theorem contains_update (x : SdkFold) (key : String) (f : SdkState → SdkState) (j : String) :
    (x.update key f).dispatches.contains j = x.dispatches.contains j := by
  rw [Dict.contains, get?_update, Dict.contains]
  split
  · rename_i hj
    rw [hj, Option.isSome_map]
  · rfl

theorem redirects_update (x : SdkFold) (key : String) (f : SdkState → SdkState) :
    (x.update key f).redirects = x.redirects := by
  unfold SdkFold.update
  split <;> rfl

variable {f : SdkState → SdkState}

theorem update (hf : Steady f) (key : String) : Edits skip x (x.update key f) :=
  ⟨.update hf key, redirects_update x key f, contains_update x key f⟩

theorem update_skip (hf : ∀ row, x.dispatches.get? key = some row → row.Blank → (f row).Blank) :
    Edits (some key) x (x.update key f) :=
  ⟨.update_skip hf, redirects_update x key f, contains_update x key f⟩

theorem mapVal (hf : Steady f) :
    Edits skip x { x with dispatches := x.dispatches.mapVal fun _ row => f row } :=
  ⟨.mapVal hf, rfl, fun key => by
    rw [Dict.contains, Dict.get?_mapVal, Option.isSome_map]
    rfl⟩

theorem foldl {α : Type} {f : SdkFold → α → SdkFold} (hf : ∀ x a, Edits skip x (f x a)) (l : List α) (x : SdkFold) :
    Edits skip x (l.foldl f x) := by
  induction l generalizing x with
  | nil => exact .refl _ x
  | cons a l ih => exact (hf x a).trans (ih _)

/-- A handler that goes on when a number can be read. -/
theorem reading {f : Option ℤ → Outcome} (h : ∀ n, Edits skip x (f n).1) (v : Json) : Edits skip x (x.reading v f).1 := by
  unfold SdkFold.reading
  split
  · exact .refl _ x
  · exact h _

end Edits

/-! ### Parts of the handlers -/

theorem edits_absorbIdentity (x : SdkFold) (key : String) (r : Record) : Edits none x (x.absorbIdentity key r) := by
  have hfill : Edits none x (x.update key fun row => row.fillIdentity r) := .update (steady_fillIdentity r) key
  unfold absorbIdentity
  refine hfill.trans (.trans (.of_dispatches ?_ ?_) (.update (.of_frozen fun row => frozen_fill row .rootId _) key))
  · rfl
  · rfl

theorem steady_applyPendingModel (x : SdkFold) : Steady x.applyPendingModel :=
  .of_frozen fun row => frozen_fill row .model _

theorem steady_applyPendingCaller (x : SdkFold) : Steady x.applyPendingCaller := by
  refine .ite .id (.of_frozen fun row => ?_)
  split
  · exact .refl row
  · exact (frozen_fill row .callerFrom _).trans (frozen_fill _ .callerVia _)

theorem steady_applyPendingLane (x : SdkFold) : Steady x.applyPendingLane :=
  .of_frozen fun row => (frozen_fill row .checkoutLane _).trans (frozen_fill _ .checkoutBranch _)

theorem edits_absorb (x : SdkFold) (key : String) (r : Record) : Edits none x (x.absorb key r) := by
  have hnote : Edits none x (x.update key fun row => row.noteEmitter r.emitter) :=
    .update (steady_noteEmitter r.emitter) key
  refine (hnote.trans (edits_absorbIdentity _ key r)).trans (.update ?_ key)
  exact (steady_applyPendingLane _).comp
    ((steady_applyPendingCaller _).comp ((steady_applyPendingModel _).comp (steady_applyProvenance r)))

/-! ### Closing rows -/

theorem edits_closeSibling (primary : String) (ts : ℤ) (state : String) (reason : Option String) (emitter : String)
    (x : SdkFold) (alt : String) : Edits none x (closeSibling primary ts state reason emitter x alt) := by
  unfold closeSibling
  dsimp only
  split
  · exact .refl _ x
  · refine .update (steady_bind (fun _ h => h) fun row => ?_) _
    cases reason <;> rfl

theorem edits_closeSiblings (x : SdkFold) (primary : String) (r : Record) (state : String) (reason : Option String)
    (emitter : String) : Edits none x (x.closeSiblings primary r state reason emitter) :=
  .foldl (fun x alt => edits_closeSibling primary r.ts state reason emitter x alt) _ x

theorem edits_closeChildren (x : SdkFold) (parent : String) (ts : ℤ) : Edits none x (x.closeChildren parent ts) := by
  refine .mapVal (steady_bind (fun row h => ?_) fun row => isLive_orphan row ts "parent_terminal")
  simp [h]

theorem edits_closeTerminalRow (x : SdkFold) (key : String) (r : Record) (state emitter : String) :
    Edits none x (x.closeTerminalRow key r state emitter) :=
  (edits_closeSiblings x _ r state _ emitter).trans (edits_closeChildren _ _ r.ts)

/-- A live row may be changed in any way. -/
theorem edits_update_live {f : SdkState → SdkState} (hlive : (x.row key).isLive = true)
    (hf : ∀ row, row.Blank → (f row).Blank) : Edits none x (x.update key f) := by
  refine (Edits.update_skip fun row _ => hf row).of_live fun row hrow => ?_
  rw [SdkFold.row, Dict.getD, hrow] at hlive
  exact hlive

theorem edits_closeStale (ts : ℤ) (x : SdkFold) (key : String) : Edits none x (closeStale ts x key) := by
  unfold closeStale
  dsimp only
  split
  · exact .refl _ x
  · rename_i h
    have hlive : (x.row key).isLive = true := by
      rw [Bool.or_eq_true, not_or, Bool.not_eq_true', Bool.not_eq_true', Bool.not_eq_false] at h
      exact Bool.eq_true_of_not_eq_false h.2
    have horphan : ∀ reason, Edits none x (x.update key fun row => row.orphan ts reason) := fun reason =>
      edits_update_live hlive fun row _ => blank_of_not_live (isLive_orphan row ts reason)
    split
    · exact horphan "parent_terminal"
    · split
      · exact horphan "restart_orphan"
      · exact .refl _ x

end SdkFold

end LlmGateway.DispatchMonitor
