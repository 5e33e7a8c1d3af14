import LlmGateway.DispatchMonitor.FirstTerminal

/-!
# One dispatch, one row

Ids are of one dispatch when records link them: a payload names both. Where no call of `ensure_canonical_row` meets a
terminal row under another id than its key, and every record that names two ids has a call with all of them, the ids
of a dispatch resolve to one key, this key has the only row of the dispatch, and no row is shadowed by a redirect
(`one_dispatch_one_row`).

A call moves ids to its key (`Toward`). In a fold whose rows stand under ends of redirects (`Tidy`) it splits no class
of ids, and in the end all ids of the call resolve to its key.
-/

namespace LlmGateway.DispatchMonitor

open SdkState Pointers

namespace SdkFold

variable {x y z : SdkFold} {key : String}

/-! ## Moving ids to a key -/

/-- Every row stands under an end of the redirects. -/
def RowsEnd (x : SdkFold) : Prop := ∀ key, x.dispatches.contains key = true → x.redirects.get? key = none

/-- Between a fold and one in which ids have moved to the key. -/
structure Toward (key : String) (x y : SdkFold) : Prop where
  grounded : GroundedFor key y
  rowsEnd : y.RowsEnd
  same : ∀ i j, x.resolve i = x.resolve j → y.resolve i = y.resolve j
  moved : ∀ i, y.resolve i = key ∨ y.resolve i = x.resolve i
  rows : ∀ j row, j ≠ key → y.dispatches.get? j = some row → x.dispatches.get? j = some row
  kept : ∀ i, x.dispatches.contains (x.resolve i) = true →
    y.resolve i = key ∨ y.dispatches.contains (y.resolve i) = true

namespace Toward

theorem refl (h : GroundedFor key x) (hrows : x.RowsEnd) : Toward key x x :=
  ⟨h, hrows, fun _ _ h => h, fun _ => .inr rfl, fun _ _ _ h => h, fun _ h => .inr h⟩

theorem trans (h : Toward key x y) (h' : Toward key y z) : Toward key x z where
  grounded := h'.grounded
  rowsEnd := h'.rowsEnd
  same i j hij := h'.same i j (h.same i j hij)
  moved i := by
    obtain hk | hk := h'.moved i
    · exact .inl hk
    · rw [hk]
      exact h.moved i
  rows j row hj hrow := h.rows j row hj (h'.rows j row hj hrow)
  kept i hi := by
    obtain hk | hk := h.kept i hi
    · obtain hk' | hk' := h'.moved i
      · exact .inl hk'
      · exact .inl (hk'.trans hk)
    · exact h'.kept i hk

theorem register (h : GroundedFor key x) (hrows : x.RowsEnd) {alt : String}
    (halt : x.redirects.get? alt = none ∨ x.resolve alt = key)
    (hy : y.redirects = Aliases.register x.redirects alt key)
    (hfrom : ∀ j row, j ≠ key → y.dispatches.get? j = some row → j ≠ alt ∧ x.dispatches.get? j = some row)
    (hto : ∀ j, j ≠ alt → x.dispatches.contains j = true → y.dispatches.contains j = true) : Toward key x y := by
  have hresolve : ∀ i, y.resolve i = if x.resolve i = x.resolve alt then key else x.resolve i := fun i => by
    rw [resolve, hy]
    exact Aliases.resolve_register h.settled h.key_end halt i
  have hground : GroundedFor key y := h.register hy hto
  refine ⟨hground, fun j hj => ?_, fun i j hij => ?_, fun i => ?_, fun j row hj hrow => (hfrom j row hj hrow).2,
    fun i hi => ?_⟩
  · obtain rfl | hne := eq_or_ne j key
    · exact hground.key_end
    · obtain ⟨row, hrow⟩ := Dict.contains_iff.1 hj
      obtain ⟨hja, hrow'⟩ := hfrom j row hne hrow
      rw [hy, Aliases.get?_register h.settled h.key_end, if_neg fun h => hja h.1]
      exact hrows j (Dict.contains_iff.2 ⟨row, hrow'⟩)
  · rw [hresolve, hresolve, hij]
  · rw [hresolve]
    split
    · exact .inl rfl
    · exact .inr rfl
  · rw [hresolve]
    split
    · exact .inl rfl
    · rename_i hne
      refine .inr (hto _ (fun heq => hne ?_) hi)
      rw [← heq]
      exact (Aliases.resolve_resolve h.settled i).symm

theorem mergeAlt (h : GroundedFor key x) (hrows : x.RowsEnd) (alt : String) :
    Toward key x (mergeAlt key x alt) := by
  obtain heq | ⟨altRow, hne, hrow, hlive⟩ := mergeAlt_cases x key alt
  · rw [heq]
    exact refl h hrows
  have hget := get?_mergeAlt hne hrow hlive
  refine register h hrows (.inl (hrows alt (Dict.contains_iff.2 ⟨altRow, hrow⟩)))
    (redirects_mergeAlt hne hrow hlive) (fun j row hj hrowj => ?_) fun j hj hrowj => ?_
  · rw [hget, if_neg hj] at hrowj
    split at hrowj
    · cases hrowj
    · exact ⟨‹_›, hrowj⟩
  · rw [Dict.contains, hget, if_neg hj]
    split
    · rfl
    · exact hrowj

theorem redirect (h : GroundedFor key x) (hrows : x.RowsEnd) {id : String}
    (hid : x.redirects.get? id = none ∨ x.resolve id = key) (hrow : id ≠ key → x.dispatches.contains id = false) :
    Toward key x (redirect key x id) := by
  refine register h hrows hid rfl (fun j row hj hrowj => ⟨?_, hrowj⟩) fun _ _ hrowj => hrowj
  rintro rfl
  have hsome : x.dispatches.contains j = true := Dict.contains_iff.2 ⟨row, hrowj⟩
  rw [hrow hj] at hsome
  cases hsome

theorem foldl_mergeAlt (alts : List String) (h : GroundedFor key x) (hrows : x.RowsEnd) :
    Toward key x (alts.foldl (SdkFold.mergeAlt key) x) := by
  induction alts generalizing x with
  | nil => exact refl h hrows
  | cons alt alts ih =>
    have hstep := mergeAlt h hrows alt
    exact hstep.trans (ih hstep.grounded hstep.rowsEnd)

theorem contains_foldl_mergeAlt {alts : List String} (h : GroundedFor key x) (hrows : x.RowsEnd) {alt : String}
    (hmem : alt ∈ alts) (hne : alt ≠ key) (hlive : ∀ row, x.dispatches.get? alt = some row → row.isLive = true) :
    (alts.foldl (SdkFold.mergeAlt key) x).dispatches.contains alt = false := by
  induction alts generalizing x with
  | nil => cases hmem
  | cons a alts ih =>
    have hstep := mergeAlt h hrows a
    have hlive' : ∀ row, (SdkFold.mergeAlt key x a).dispatches.get? alt = some row → row.isLive = true :=
      fun row hrow => hlive row (hstep.rows alt row hne hrow)
    obtain rfl | hmem := List.mem_cons.1 hmem
    · have hgone : (SdkFold.mergeAlt key x alt).dispatches.get? alt = none := by
        cases hrow : x.dispatches.get? alt with
        | none =>
          rw [mergeAlt_of_not_live (.inr fun _ h => by rw [hrow] at h; cases h)]
          exact hrow
        | some row => rw [get?_mergeAlt hne hrow (hlive row hrow), if_pos rfl]
      have hrest := foldl_mergeAlt alts hstep.grounded hstep.rowsEnd
      rw [List.foldl_cons, Dict.contains, Option.isSome_eq_false_iff, Option.isNone_iff_eq_none]
      by_contra hsome
      obtain ⟨row, hrow⟩ := Option.ne_none_iff_exists'.1 hsome
      have := hrest.rows alt row hne hrow
      rw [hgone] at this
      cases this
    · exact ih hstep.grounded hstep.rowsEnd hmem hlive'

theorem foldl_redirect {ids : List String} (h : GroundedFor key x) (hrows : x.RowsEnd)
    (hids : ∀ id ∈ ids, (x.redirects.get? id = none ∨ x.resolve id = key) ∧
      (id ≠ key → x.dispatches.contains id = false)) :
    Toward key x (ids.foldl (SdkFold.redirect key) x) ∧
      ∀ id ∈ ids, (ids.foldl (SdkFold.redirect key) x).resolve id = key := by
  induction ids generalizing x with
  | nil => exact ⟨refl h hrows, fun _ hid => by cases hid⟩
  | cons a ids ih =>
    obtain ⟨hend, hrow⟩ := hids a List.mem_cons_self
    have hstep := redirect h hrows hend hrow
    have ha : (SdkFold.redirect key x a).resolve a = key := by
      rw [resolve, SdkFold.redirect, Aliases.resolve_register h.settled h.key_end hend, if_pos rfl]
    have hids' : ∀ id ∈ ids, ((SdkFold.redirect key x a).redirects.get? id = none ∨
        (SdkFold.redirect key x a).resolve id = key) ∧
        (id ≠ key → (SdkFold.redirect key x a).dispatches.contains id = false) := by
      intro id hid
      obtain ⟨hend', hrow'⟩ := hids id (List.mem_cons_of_mem _ hid)
      refine ⟨?_, hrow'⟩
      by_cases hia : id = a
      · rw [hia]
        exact .inr ha
      obtain hend' | hkey := hend'
      · refine .inl ?_
        rw [SdkFold.redirect, Aliases.get?_register h.settled h.key_end, if_neg fun h => hia h.1]
        exact hend'
      · refine .inr ((hstep.moved id).elim (fun h => h) fun heq => heq.trans hkey)
    obtain ⟨hrest, hall⟩ := ih hstep.grounded hstep.rowsEnd hids'
    refine ⟨hstep.trans hrest, fun id hid => ?_⟩
    obtain rfl | hid := List.mem_cons.1 hid
    · exact (hrest.moved id).elim (fun h => h) fun heq => heq.trans ha
    · exact hall id hid

end Toward

/-! ## A call -/

/-- No terminal row stands under one of the resolved ids but the key. -/
def Unshadowed (x : SdkFold) (preferred : String) (ids : List String) : Prop :=
  ∀ alt ∈ x.resolvedIds preferred ids, alt ≠ x.resolve preferred →
    ∀ row, x.dispatches.get? alt = some row → row.isLive = true

/-- Redirected ids have rows, and rows stand under ends. -/
def Tidy (x : SdkFold) : Prop := x.Grounded ∧ x.RowsEnd

/-- Classes of ids are not split, and rows are not lost. -/
structure Joins (x y : SdkFold) : Prop where
  tidy : y.Tidy
  same : ∀ i j, x.resolve i = x.resolve j → y.resolve i = y.resolve j
  kept : ∀ i, x.dispatches.contains (x.resolve i) = true → y.dispatches.contains (y.resolve i) = true

variable {ids : List String} {preferred : String}

theorem mem_resolvedIds {id : String} (h : id ∈ preferred :: ids) (ht : x.Grounded) :
    x.resolve id ∈ x.resolvedIds preferred ids := by
  rw [resolvedIds, List.mem_eraseDups, List.mem_map]
  obtain rfl | h := List.mem_cons.1 h
  · exact ⟨x.resolve id, List.mem_cons_self, Aliases.resolve_resolve ht.settled id⟩
  · exact ⟨id, List.mem_cons_of_mem _ h, rfl⟩

theorem resolve_openRow (x : SdkFold) (key i : String) : (x.openRow key).resolve i = x.resolve i := by
  rw [resolve, redirects_openRow]
  rfl

theorem contains_openRow_self (x : SdkFold) (key : String) : (x.openRow key).dispatches.contains key = true := by
  rw [Dict.contains, get?_openRow_self]
  rfl

theorem rowsEnd_openRow (h : GroundedFor key x) (hrows : x.RowsEnd) : (x.openRow key).RowsEnd := by
  intro j hj
  rw [redirects_openRow]
  obtain rfl | hne := eq_or_ne j key
  · exact h.key_end
  · rw [Dict.contains, get?_openRow_ne hne] at hj
    exact hrows j hj

theorem Toward.joins (h : Toward key x y) : Joins x (y.openRow key) := by
  refine ⟨⟨h.grounded.openRow, rowsEnd_openRow h.grounded h.rowsEnd⟩, fun i j hij => ?_, fun i hi => ?_⟩
  · rw [resolve_openRow, resolve_openRow]
    exact h.same i j hij
  · rw [resolve_openRow]
    obtain heq | hne := eq_or_ne (y.resolve i) key
    · rw [heq]
      exact contains_openRow_self y key
    · rw [Dict.contains, get?_openRow_ne hne]
      exact (h.kept i hi).resolve_left hne

theorem ready_of_unshadowed (h : x.Tidy) (hu : x.Unshadowed preferred ids) (hy : Toward (x.resolve preferred) x
      ((x.resolvedIds preferred ids).foldl (mergeAlt (x.resolve preferred)) x)) {id : String} (hid : id ∈ ids) :
    (((x.resolvedIds preferred ids).foldl (mergeAlt (x.resolve preferred)) x).redirects.get? id = none ∨
      ((x.resolvedIds preferred ids).foldl (mergeAlt (x.resolve preferred)) x).resolve id = x.resolve preferred) ∧
    (id ≠ x.resolve preferred →
      ((x.resolvedIds preferred ids).foldl (mergeAlt (x.resolve preferred)) x).dispatches.contains id = false) := by
  have hgone : ∀ alt ∈ x.resolvedIds preferred ids, alt ≠ x.resolve preferred →
      ((x.resolvedIds preferred ids).foldl (mergeAlt (x.resolve preferred)) x).dispatches.contains alt = false :=
    fun alt hmem hne => Toward.contains_foldl_mergeAlt (h.1.groundedFor preferred) h.2 hmem hne (hu alt hmem hne)
  have hmem : x.resolve id ∈ x.resolvedIds preferred ids := mem_resolvedIds (List.mem_cons_of_mem _ hid) h.1
  constructor
  · obtain hkey | heq := hy.moved id
    · exact .inr hkey
    by_cases hkey : x.resolve id = x.resolve preferred
    · exact .inr (heq.trans hkey)
    refine .inl (by_contra fun hne => ?_)
    obtain hk | hrow := hy.grounded.grounded id hne
    · exact hkey (heq.symm.trans hk)
    · rw [heq, hgone _ hmem hkey] at hrow
      cases hrow
  · intro hne
    by_contra hrow
    obtain ⟨row, hrow⟩ := Dict.contains_iff.1 (Bool.eq_true_of_not_eq_false hrow)
    have hend := h.2 id (Dict.contains_iff.2 ⟨row, hy.rows id row hne hrow⟩)
    have hself : x.resolve id = id := Aliases.resolve_of_none hend
    rw [hself] at hmem
    have hfalse := hgone id hmem hne
    rw [Dict.contains_iff.2 ⟨row, hrow⟩] at hfalse
    cases hfalse

/-- **One call.** Without a terminal row in the shadow, no class is split and the ids of the call come to its key, which
has a row. -/
theorem joins_ensureCanonicalRow (h : x.Tidy) (hu : x.Unshadowed preferred ids) :
    Joins x (x.ensureCanonicalRow preferred ids) ∧
      (∀ id ∈ preferred :: ids, (x.ensureCanonicalRow preferred ids).resolve id = x.resolve preferred) ∧
      (x.ensureCanonicalRow preferred ids).dispatches.contains (x.resolve preferred) = true := by
  have hmerge := Toward.foldl_mergeAlt (x.resolvedIds preferred ids) (h.1.groundedFor preferred) h.2
  obtain ⟨hredirect, hall⟩ := Toward.foldl_redirect hmerge.grounded hmerge.rowsEnd fun id hid =>
    ready_of_unshadowed h hu hmerge hid
  have hmoved := hmerge.trans hredirect
  refine ⟨hmoved.joins, fun id hid => ?_, contains_openRow_self _ _⟩
  rw [ensureCanonicalRow, resolve_openRow]
  obtain rfl | hid := List.mem_cons.1 hid
  · exact (hmoved.moved id).elim (fun h => h) fun heq => heq
  · exact hall id hid

/-! ## A record -/

theorem Joins.refl (h : x.Tidy) : Joins x x := ⟨h, fun _ _ h => h, fun _ h => h⟩

theorem Joins.trans (h : Joins x y) (h' : Joins y z) : Joins x z :=
  ⟨h'.tidy, fun i j hij => h'.same i j (h.same i j hij), fun i hi => h'.kept i (h.kept i hi)⟩

theorem joins_edits (h : x.Tidy) (he : Edits none x y) : Joins x y := by
  have hresolve : ∀ i, y.resolve i = x.resolve i := fun i => by rw [resolve, he.redirects, resolve]
  refine ⟨⟨h.1.edits he, fun j hj => ?_⟩, fun i j hij => ?_, fun i hi => ?_⟩
  · rw [he.redirects]
    exact h.2 j (he.contains j ▸ hj)
  · rw [hresolve, hresolve, hij]
  · rw [hresolve, he.contains]
    exact hi

theorem joins_ensureRow (h : x.Tidy) (id : String) : Joins x (x.ensureRow id).1 := by
  obtain heq | ⟨hrow, hend, heq⟩ := ensureRow_cases h.1 id
  · rw [heq]
    exact .refl h
  refine ⟨⟨h.1.ensureRow id, fun j hj => ?_⟩, ?_, fun i hi => ?_⟩
  · rw [heq] at hj ⊢
    rw [Dict.contains, Dict.get?_set] at hj
    split at hj
    · rename_i hji
      rw [hji]
      exact hend
    · exact h.2 j hj
  · rw [heq]
    exact fun _ _ hij => hij
  · rw [heq]
    exact Dict.contains_set hi _ _

theorem covers_joins : Covers fun x y => x.Tidy → Joins x y where
  trans h h' hx := (h hx).trans (h' (h hx).tidy)
  edits he hx := joins_edits hx he
  opens _ id hx := joins_ensureRow hx id

end SdkFold

/-! ## Ids of one dispatch -/

/-- The ids by which a payload names its dispatch. -/
def Record.identityIds (r : Record) : List String := r.idsUnder (Record.idKeys (decide (r.signal = .workerQueued)))

/-- A record names both ids. -/
def Linked (records : List Record) (i j : String) : Prop := ∃ r ∈ records, i ∈ r.identityIds ∧ j ∈ r.identityIds

/-- Records link the ids. -/
def SameDispatch (records : List Record) : String → String → Prop := Relation.ReflTransGen (Linked records)

/-- The ids of every dispatch have one key and one row, and no row is shadowed. -/
structure OneDispatchOneRow (records : List Record) (x : SdkFold) : Prop where
  key : ∀ i j, SameDispatch records i j → x.resolve i = x.resolve j
  row : ∀ i j, SameDispatch records i j → i ≠ j → x.dispatches.contains (x.resolve i) = true
  only : ∀ i j, SameDispatch records i j → x.dispatches.contains j = true → j = x.resolve i
  unshadowed : ∀ key, x.dispatches.contains key = true → x.resolve key = key

/-- No call of a record meets a terminal row in the shadow, and a call has all ids of a record that names two. -/
def SdkFold.Apart (x : SdkFold) (r : Record) : Prop :=
  (∀ c ∈ x.calls r, c.fold.Unshadowed c.preferred c.ids) ∧
    ((∀ i ∈ r.identityIds, ∀ j ∈ r.identityIds, i = j) ∨
      ∃ c ∈ x.calls r, ∀ id ∈ r.identityIds, id ∈ c.preferred :: c.ids)

/-! ## Runs -/

/-- Linked ids resolve alike, and to a row when there are two of them. -/
structure Keyed (records : List Record) (x : SdkFold) : Prop where
  tidy : x.Tidy
  same : ∀ i j, Linked records i j → x.resolve i = x.resolve j
  row : ∀ i j, Linked records i j → i ≠ j → x.dispatches.contains (x.resolve i) = true

theorem not_linked_nil {i j : String} : ¬ Linked [] i j := by
  rintro ⟨r, hr, -⟩
  cases hr

theorem keyed_new : Keyed [] .new :=
  ⟨⟨SdkFold.grounded_new, fun _ h => (by cases h)⟩, fun _ _ h => (not_linked_nil h).elim,
    fun _ _ h => (not_linked_nil h).elim⟩

variable {records : List Record} {x : SdkFold}

theorem linked_append {r : Record} {i j : String} (h : Linked (records ++ [r]) i j) :
    Linked records i j ∨ i ∈ r.identityIds ∧ j ∈ r.identityIds := by
  obtain ⟨r', hr', hij⟩ := h
  obtain hr' | hr' := List.mem_append.1 hr'
  · exact .inl ⟨r', hr', hij⟩
  · rw [List.mem_singleton.1 hr'] at hij
    exact .inr hij

/-- **One record.** -/
theorem Keyed.next (h : Keyed records x)
    (others : CorrelationIndex → Record → CorrelationIndex) {r : Record} (hr : x.Apart r) :
    Keyed (records ++ [r]) (x.next others r) := by
  have hreach := SdkFold.next_reaches SdkFold.covers_joins others fun c hc hx =>
    (SdkFold.joins_ensureCanonicalRow hx (hr.1 c hc)).1
  have hjoins := hreach.fold h.tidy
  have hnew : ∀ i ∈ r.identityIds, ∀ j ∈ r.identityIds, (x.next others r).resolve i = (x.next others r).resolve j ∧
      (i ≠ j → (x.next others r).dispatches.contains ((x.next others r).resolve i) = true) := by
    intro i hi j hj
    obtain hone | ⟨c, hc, hids⟩ := hr.2
    · obtain rfl := hone i hi j hj
      exact ⟨rfl, fun hne => absurd rfl hne⟩
    have htidy : c.fold.Tidy := (hreach.before c hc h.tidy).tidy
    obtain ⟨hrun, hkey, hrow⟩ := SdkFold.joins_ensureCanonicalRow htidy (hr.1 c hc)
    have hbehind := hreach.run c hc hrun.tidy
    have hi' := hkey i (hids i hi)
    refine ⟨hbehind.same i j (hi'.trans (hkey j (hids j hj)).symm), fun _ => hbehind.kept i ?_⟩
    rw [Call.run]
    exact hi' ▸ hrow
  refine ⟨hjoins.tidy, fun i j hij => ?_, fun i j hij hne => ?_⟩
  · obtain hold | ⟨hi, hj⟩ := linked_append hij
    · exact hjoins.same i j (h.same i j hold)
    · exact (hnew i hi j hj).1
  · obtain hold | ⟨hi, hj⟩ := linked_append hij
    · exact hjoins.kept i (h.row i j hold hne)
    · exact (hnew i hi j hj).2 hne

theorem Keyed.foldl {seen : List Record} (h : Keyed seen x) (others : CorrelationIndex → Record → CorrelationIndex)
    (hr : System.EachStep (SdkFold.next others) SdkFold.Apart x records) :
    Keyed (seen ++ records) (records.foldl (SdkFold.next others) x) := by
  induction records generalizing seen x with
  | nil =>
    rw [List.append_nil]
    exact h
  | cons r records ih =>
    have hrest := ih (h.next others hr.1) hr.2
    rw [List.append_assoc] at hrest
    exact hrest

theorem Keyed.oneDispatchOneRow (h : Keyed records x) :
    OneDispatchOneRow records x := by
  have hkey : ∀ i j, SameDispatch records i j → x.resolve i = x.resolve j := by
    intro i j hij
    induction hij with
    | refl => rfl
    | tail _ hlink ih => exact ih.trans (h.same _ _ hlink)
  refine ⟨hkey, fun i j hij => ?_, fun i j hij hj => ?_, fun key hk => Aliases.resolve_of_none (h.tidy.2 key hk)⟩
  · induction hij using Relation.ReflTransGen.head_induction_on with
    | refl => exact fun hne => absurd rfl hne
    | @head i k hlink _ ih =>
      intro hne
      by_cases hkj : k = j
      · exact h.row i k hlink fun heq => hne (heq.trans hkj)
      · rw [h.same i k hlink]
        exact ih hkj
  · rw [hkey i j hij]
    exact (Aliases.resolve_of_none (h.tidy.2 j hj)).symm

/-- **One dispatch, one row.** In every run whose records keep apart. -/
theorem one_dispatch_one_row (others : CorrelationIndex → Record → CorrelationIndex) {records : List Record}
    (h : System.EachStep (SdkFold.next others) SdkFold.Apart .new records) :
    OneDispatchOneRow records (records.foldl (SdkFold.next others) .new) :=
  (keyed_new.foldl others h).oneDispatchOneRow

/-- The start of a pipeline and the progress of its worker. -/
theorem one_dispatch_one_row_progress :
    OneDispatchOneRow [pipelineStart, lateProgress] (folded [pipelineStart, lateProgress]) ∧
      (folded [pipelineStart, lateProgress]).resolve "e" = "d" := by
  have hstart : (folded []).Apart pipelineStart := by
    have hcalls : (folded []).calls pipelineStart = [⟨folded [], "e", ["e"]⟩] := rfl
    refine ⟨fun c hc => ?_, .inl (by decide)⟩
    rw [hcalls, List.mem_singleton] at hc
    subst hc
    exact fun _ _ _ _ hrow => by cases hrow
  have hprogress : (folded [pipelineStart]).Apart lateProgress := by
    have hcalls : (folded [pipelineStart]).calls lateProgress = [⟨folded [pipelineStart], "d", ["d", "e"]⟩] := rfl
    refine ⟨fun c hc => ?_, .inr ⟨_, by rw [hcalls]; exact List.mem_singleton_self _, by decide⟩⟩
    rw [hcalls, List.mem_singleton] at hc
    subst hc
    have hlive : ∀ e ∈ (folded [pipelineStart]).dispatches.items, e.2.isLive = true := by decide
    exact fun alt _ _ row hrow => hlive (alt, row) (Dict.mem_items_iff.2 hrow)
  exact ⟨one_dispatch_one_row (fun index _ => index) ⟨hstart, hprogress, trivial⟩, by decide⟩

/-- The pipeline ends under its execution id. -/
def pipelineEnd : Record := ⟨.pipelineCompleted, 10, [("execution_id", .str "e")], none, none⟩

/-- The worker ends, and names both ids. -/
def workerEnd : Record := ⟨.workerCompleted, 20, [("dispatch_id", .str "d"), ("execution_id", .str "e")], none, none⟩

/-- Both lanes end: the dispatch has two rows, and one of them is shadowed. -/
theorem lanes_end_in_two_rows :
    (folded [pipelineEnd, workerEnd]).dispatches.contains "e" = true ∧
    (folded [pipelineEnd, workerEnd]).dispatches.contains "d" = true ∧
    ¬ OneDispatchOneRow [pipelineEnd, workerEnd] (folded [pipelineEnd, workerEnd]) := by
  refine ⟨by decide +kernel, by decide +kernel, fun h => ?_⟩
  have hself := h.unshadowed "e" (by decide +kernel)
  revert hself
  decide +kernel

end LlmGateway.DispatchMonitor
