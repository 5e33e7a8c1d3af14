import LlmGateway.EventStore.Ingest
import LlmGateway.Foundations.System

/-!
# The writer of events

One writer serves all publishers, so it ought to get over every line, and what becomes of an event ought not to
depend on its neighbours in a batch. The writer asks every line of a batch for its keys, `int` for the id of an
event, and every snapshot's payload for its keys, with nothing to catch what these raise. `unharmed_iff` says
which batches it gets over, and that through those every event is kept or dropped on its own.
-/

namespace LlmGateway.EventStore

/-! ## What is asked of a line -/

namespace Entry

/-- The line is an object. -/
def isObject (e : Entry) : Bool := e.notObject.isNone

/-- The event goes to the events table. -/
def isStored (e : Entry) : Bool := !e.isRealtime && !oversized e.items

/-- The event is committed. -/
def isKept (e : Entry) : Bool := e.isStored && e.accepted

/-- The id raises nothing: it is no infinite float. -/
def hasId (e : Entry) : Bool := (eventId e.items).toOption.isSome

/-- The payload of a snapshot is an object, or not there. -/
def hasPayload (e : Entry) : Bool := (snapshotPayload e.items).toOption.isSome

/-- The writer gets over the line: it is an object, and unless it is a realtime event its id is no infinite float (or
its payload is too long) and, if it is a snapshot, its payload is an object or not there. -/
def harmless (e : Entry) : Bool :=
  e.isObject && (e.isRealtime || ((oversized e.items || e.hasId) && (!e.isSnapshot || e.hasPayload)))

end Entry

/-- SQLite gets over the batch: the rows go in with one statement, or the rollbacks that are needed succeed. -/
def undoes (together undone : Bool) (batch : List Entry) : Bool :=
  let stored := batch.filter Entry.isStored
  stored.isEmpty || (together && stored.all Entry.accepted) || (undone && stored.all fun e => e.accepted || e.undone)

/-! ## The store -/

section Store

variable {iso : String → Option ℤ} {now : ℤ} {together undone : Bool}

variable {items : List (String × Json)} {entries : List Entry} {prepared : List (Row × Entry)}

theorem prepareInsertRow_of_oversized (h : oversized items = true) :
    prepareInsertRow iso now items = .ok none := by
  rw [prepareInsertRow, if_pos h]

variable (iso now) in
theorem prepareInsertRow_of_id (h : oversized items = false)
    (hid : (eventId items).toOption.isSome = true) : ∃ row, prepareInsertRow iso now items = .ok (some row) := by
  simp only [prepareInsertRow, h, Bool.false_eq_true, if_false]
  cases heq : eventId items with
  | error r => rw [heq] at hid; cases hid
  | ok id => exact ⟨_, rfl⟩

variable (iso now) in
theorem prepareInsertRow_of_no_id (h : oversized items = false)
    (hid : (eventId items).toOption.isSome = false) : ∃ r, prepareInsertRow iso now items = .error r := by
  simp only [prepareInsertRow, h, Bool.false_eq_true, if_false]
  cases heq : eventId items with
  | error r => exact ⟨r, rfl⟩
  | ok id => rw [heq] at hid; cases hid

variable (iso now) in
theorem prepareRows_of_ids (h : ∀ e ∈ entries, (oversized e.items || e.hasId) = true) :
    ∃ prepared, prepareRows iso now entries = .ok prepared ∧
      prepared.map Prod.snd = entries.filter fun e => !oversized e.items := by
  induction entries with
  | nil => exact ⟨[], rfl, rfl⟩
  | cons e entries ih =>
    obtain ⟨prepared, hprepared, hsnd⟩ := ih fun e he => h e (List.mem_cons_of_mem _ he)
    have he := h e List.mem_cons_self
    cases hlong : oversized e.items with
    | true =>
      refine ⟨prepared, ?_, ?_⟩
      · rw [prepareRows, prepareInsertRow_of_oversized hlong, hprepared]
        rfl
      · simp [hsnd, hlong]
    | false =>
      rw [hlong, Bool.false_or] at he
      obtain ⟨row, hrow⟩ := prepareInsertRow_of_id iso now hlong he
      refine ⟨(row, e) :: prepared, ?_, ?_⟩
      · rw [prepareRows, hrow, hprepared]
        rfl
      · simp [hsnd, hlong]

variable (iso now) in
theorem prepareRows_of_not_ids (h : ¬ ∀ e ∈ entries, (oversized e.items || e.hasId) = true) :
    ∃ r, prepareRows iso now entries = .error r := by
  induction entries with
  | nil => exact (h fun e he => by cases he).elim
  | cons e entries ih =>
    cases hrow : prepareInsertRow iso now e.items with
    | error r => exact ⟨r, by rw [prepareRows, hrow]⟩
    | ok row =>
      have he : (oversized e.items || e.hasId) = true := by
        by_contra hnot
        rw [Bool.not_eq_true, Bool.or_eq_false_iff] at hnot
        obtain ⟨r, hr⟩ := prepareInsertRow_of_no_id iso now hnot.1 hnot.2
        rw [hrow] at hr
        cases hr
      obtain ⟨r, hr⟩ := ih fun hall => h fun e' he' => by
        obtain rfl | he' := List.mem_cons.1 he'
        · exact he
        · exact hall e' he'
      exact ⟨r, by rw [prepareRows, hrow, hr]; rfl⟩

theorem insertPreparedRows_of_undone (h : ∀ p ∈ prepared, (p.2.accepted || p.2.undone) = true) :
    insertPreparedRows prepared = (prepared.filter fun p => p.2.accepted, none) := by
  induction prepared with
  | nil => rfl
  | cons p prepared ih =>
    have hp := h p List.mem_cons_self
    rw [insertPreparedRows, ih fun p hp => h p (List.mem_cons_of_mem _ hp)]
    cases hacc : p.2.accepted with
    | true => simp [hacc]
    | false =>
      rw [hacc, Bool.false_or] at hp
      simp [hacc, hp]

theorem insertPreparedRows_of_not_undone
    (h : ¬ ∀ p ∈ prepared, (p.2.accepted || p.2.undone) = true) : (insertPreparedRows prepared).2.isSome = true := by
  induction prepared with
  | nil => exact (h fun p hp => by cases hp).elim
  | cons p prepared ih =>
    have hrest (hp : (p.2.accepted || p.2.undone) = true) : (insertPreparedRows prepared).2.isSome = true :=
      ih fun hall => h fun q hq => by
        obtain rfl | hq := List.mem_cons.1 hq
        · exact hp
        · exact hall q hq
    rw [insertPreparedRows]
    split
    · exact hrest (by simp [*])
    split
    · exact hrest (by simp [*])
    · rfl

/-- The answers that `insert_events` gets over. -/
def Insertable (together undone : Bool) (entries : List Entry) : Prop :=
  (∀ e ∈ entries, (oversized e.items || e.hasId) = true) ∧
    (let stored := entries.filter fun e => !oversized e.items
    (stored.isEmpty || (together && stored.all Entry.accepted) ||
      (undone && stored.all fun e => e.accepted || e.undone)) = true)

theorem all_prepared {stored : List Entry} (h : prepared.map Prod.snd = stored)
    (p : Entry → Bool) : (prepared.all fun q => p q.2) = stored.all p := by
  rw [← h, List.all_map]
  rfl

variable (iso now) in
theorem insertEvents_of_insertable (h : Insertable together undone entries) :
    (insertEvents iso now together undone entries).2 = none ∧
      (insertEvents iso now together undone entries).1.map Prod.snd =
        (entries.filter fun e => !oversized e.items).filter Entry.accepted := by
  obtain ⟨hids, hanswers⟩ := h
  obtain ⟨prepared, hprepared, hsnd⟩ := prepareRows_of_ids iso now hids
  simp only [← hsnd] at hanswers ⊢
  simp only [insertEvents, hprepared]
  cases prepared with
  | nil => exact ⟨rfl, rfl⟩
  | cons p prepared =>
    simp only [List.isEmpty_cons, Bool.false_eq_true, if_false]
    split
    · rename_i htogether
      rw [Bool.and_eq_true, List.all_eq_true] at htogether
      refine ⟨rfl, (List.filter_eq_self.2 fun e he => ?_).symm⟩
      obtain ⟨q, hq, rfl⟩ := List.mem_map.1 he
      exact htogether.2 q hq
    · rename_i htogether
      rw [all_prepared (p := Entry.accepted) rfl] at htogether
      rw [List.map_cons, List.isEmpty_cons, Bool.false_or, Bool.or_eq_true] at hanswers
      have hundone := hanswers.resolve_left htogether
      rw [Bool.and_eq_true, List.all_eq_true] at hundone
      rw [if_pos hundone.1, insertPreparedRows_of_undone fun q hq => hundone.2 q.2 (List.mem_map_of_mem hq)]
      refine ⟨rfl, ?_⟩
      rw [List.filter_map]
      rfl

variable (iso now) in
theorem insertEvents_of_not_insertable (h : ¬ Insertable together undone entries) :
    (insertEvents iso now together undone entries).2.isSome = true := by
  by_cases hids : ∀ e ∈ entries, (oversized e.items || e.hasId) = true
  · obtain ⟨prepared, hprepared, hsnd⟩ := prepareRows_of_ids iso now hids
    have hanswers := fun hall => h ⟨hids, hall⟩
    simp only [← hsnd] at hanswers
    simp only [insertEvents, hprepared]
    cases prepared with
    | nil => exact (hanswers rfl).elim
    | cons p prepared =>
      simp only [List.isEmpty_cons, Bool.false_eq_true, if_false]
      split
      · rename_i htogether
        rw [all_prepared (p := Entry.accepted) rfl] at htogether
        exact (hanswers (by rw [htogether, Bool.or_true, Bool.true_or])).elim
      split
      · rename_i hundone
        refine insertPreparedRows_of_not_undone fun hall => hanswers ?_
        have hall' : (((p :: prepared).map Prod.snd).all fun e => e.accepted || e.undone) = true := by
          rw [List.all_map, List.all_eq_true]
          exact hall
        rw [hundone, hall', Bool.and_true, Bool.or_true]
      · rfl
  · obtain ⟨r, hr⟩ := prepareRows_of_not_ids iso now hids
    simp only [insertEvents, hr]
    rfl

theorem insertSnapshots_eq_none_iff :
    (insertSnapshots now entries).2 = none ↔ ∀ e ∈ entries, e.hasPayload = true := by
  induction entries with
  | nil => exact iff_of_true rfl fun e he => by cases he
  | cons e entries ih =>
    rw [List.forall_mem_cons, ← ih]
    cases hpayload : snapshotPayload e.items with
    | error r | ok payload => simp [insertSnapshots, Entry.hasPayload, hpayload, Except.toOption]

end Store

/-! ## A batch -/

/-- The order in which the events of a batch are inserted: snapshots behind the others. -/
def ordered (batch : List Entry) : List Entry :=
  ((batch.filter fun e => !e.isRealtime).filter fun e => !e.isSnapshot) ++
    (batch.filter fun e => !e.isRealtime).filter Entry.isSnapshot

theorem ordered_perm (batch : List Entry) : (ordered batch).Perm (batch.filter fun e => !e.isRealtime) :=
  List.perm_append_comm.trans (List.filter_append_perm Entry.isSnapshot _)

theorem mem_ordered {batch : List Entry} {e : Entry} : e ∈ ordered batch ↔ e ∈ batch ∧ e.isRealtime = false := by
  rw [(ordered_perm batch).mem_iff, List.mem_filter, Bool.not_eq_true']

theorem filter_ordered_perm (batch : List Entry) :
    ((ordered batch).filter fun e => !oversized e.items).Perm (batch.filter Entry.isStored) := by
  refine ((ordered_perm batch).filter _).trans (List.Perm.of_eq ?_)
  rw [List.filter_filter]
  exact List.filter_congr fun e _ => Bool.and_comm ..

theorem answers_congr {l l' : List Entry} (h : l.Perm l') (together undone : Bool) :
    (l.isEmpty || (together && l.all Entry.accepted) || (undone && l.all fun e => e.accepted || e.undone)) =
      (l'.isEmpty || (together && l'.all Entry.accepted) || (undone && l'.all fun e => e.accepted || e.undone)) := by
  have hall : ∀ p : Entry → Bool, l.all p = l'.all p := fun p => by
    rw [Bool.eq_iff_iff, List.all_eq_true, List.all_eq_true]
    exact forall_congr' fun e => by rw [h.mem_iff]
  rw [hall, hall, h.isEmpty_eq]

theorem getsOver_iff {together undone : Bool} {batch : List Entry} :
    ((∀ e ∈ batch, e.harmless = true) ∧ undoes together undone batch = true) ↔
      (∀ e ∈ batch, e.isObject = true) ∧ Insertable together undone (ordered batch) ∧
        ∀ e ∈ (batch.filter fun e => !e.isRealtime).filter Entry.isSnapshot, e.hasPayload = true := by
  have hanswers : undoes together undone batch = true ↔ (let stored := (ordered batch).filter fun e => !oversized e.items
      (stored.isEmpty || (together && stored.all Entry.accepted) ||
        (undone && stored.all fun e => e.accepted || e.undone)) = true) := by
    rw [undoes, answers_congr (filter_ordered_perm batch).symm]
  rw [Insertable, ← hanswers]
  simp only [mem_ordered, List.mem_filter, Bool.not_eq_true']
  constructor
  · rintro ⟨hall, hundoes⟩
    have hline : ∀ e ∈ batch, e.isObject = true ∧
        (e.isRealtime = true ∨ (oversized e.items || e.hasId) = true ∧ (e.isSnapshot = false ∨ e.hasPayload = true)) := by
      intro e he
      have hharmless := hall e he
      rw [Entry.harmless, Bool.and_eq_true, Bool.or_eq_true, Bool.and_eq_true, Bool.or_eq_true (!e.isSnapshot),
        Bool.not_eq_true'] at hharmless
      exact hharmless
    refine ⟨fun e he => (hline e he).1, ⟨fun e he => ?_, hundoes⟩, fun e he => ?_⟩
    · obtain ⟨he, hpersistent⟩ := he
      exact ((hline e he).2.resolve_left (by simp [hpersistent])).1
    · obtain ⟨⟨he, hpersistent⟩, hsnapshot⟩ := he
      exact ((hline e he).2.resolve_left (by simp [hpersistent])).2.resolve_left (by simp [hsnapshot])
  · rintro ⟨hobject, ⟨hids, hundoes⟩, hpayload⟩
    refine ⟨fun e he => ?_, hundoes⟩
    rw [Entry.harmless, hobject e he, Bool.true_and]
    cases hrealtime : e.isRealtime with
    | true => rfl
    | false =>
      rw [hids e ⟨he, hrealtime⟩, Bool.false_or, Bool.true_and]
      cases hsnapshot : e.isSnapshot with
      | false => rfl
      | true => rw [hpayload e ⟨⟨he, hrealtime⟩, hsnapshot⟩, Bool.or_true]

namespace Ingest

variable {iso : String → Option ℤ} {now : ℤ} {together undone : Bool} {x : Ingest} {batch : List Entry}

theorem findSome?_eq_none_iff : batch.findSome? Entry.notObject = none ↔ ∀ e ∈ batch, e.isObject = true := by
  rw [List.findSome?_eq_none_iff]
  exact forall₂_congr fun e _ => Option.isNone_iff_eq_none.symm

theorem store_of_inserted (regular snapshots : List Entry)
    (hraised : (insertEvents iso now together undone (regular ++ snapshots)).2 = none)
    (hsnapshots : (insertSnapshots now snapshots).2 = none) :
    x.store iso now together undone regular snapshots =
      { x with
        events := x.events ++ (insertEvents iso now together undone (regular ++ snapshots)).1
        snapshots := x.snapshots ++ (insertSnapshots now snapshots).1
        published := x.published ++ (insertEvents iso now together undone (regular ++ snapshots)).1.map Prod.snd } := by
  simp only [store, hraised, hsnapshots]

theorem store_of_raised {regular snapshots : List Entry}
    (h : (insertEvents iso now together undone (regular ++ snapshots)).2 ≠ none ∨
      (insertSnapshots now snapshots).2 ≠ none) :
    (x.store iso now together undone regular snapshots).failure ≠ none := by
  simp only [store]
  cases hraised : (insertEvents iso now together undone (regular ++ snapshots)).2 with
  | some r => exact fun hnone => by cases hnone
  | none =>
    obtain ⟨r, hr⟩ := Option.ne_none_iff_exists'.1 (h.resolve_left fun hne => hne hraised)
    simp only [hr]
    exact fun hnone => by cases hnone

theorem pushRealtime_frame (x : Ingest) (entries : List Entry) :
    (x.pushRealtime entries).failure = x.failure ∧ (x.pushRealtime entries).taken = x.taken ∧
      (x.pushRealtime entries).events = x.events ∧ (x.pushRealtime entries).published = x.published ++ entries :=
  ⟨rfl, rfl, rfl, rfl⟩

variable (iso now) in
theorem process_of_getsOver (h : ∀ e ∈ batch, e.harmless = true) (hundoes : undoes together undone batch = true) :
    (x.process iso now together undone batch).failure = x.failure ∧
      (x.process iso now together undone batch).taken = x.taken ∧
      ((x.process iso now together undone batch).events.map Prod.snd).Perm
        (x.events.map Prod.snd ++ batch.filter Entry.isKept) ∧
      (x.process iso now together undone batch).published.Perm
        (x.published ++ batch.filter fun e => e.isRealtime || e.isKept) := by
  obtain ⟨hobject, hinsertable, hpayload⟩ := getsOver_iff.1 ⟨h, hundoes⟩
  obtain ⟨hraised, hkept⟩ := insertEvents_of_insertable iso now hinsertable
  have hperm : (((ordered batch).filter fun e => !oversized e.items).filter Entry.accepted).Perm
      (batch.filter Entry.isKept) := by
    refine ((filter_ordered_perm batch).filter _).trans (List.Perm.of_eq ?_)
    rw [List.filter_filter]
    exact List.filter_congr fun e _ => Bool.and_comm ..
  have hpublished : (batch.filter Entry.isRealtime ++ batch.filter Entry.isKept).Perm
      (batch.filter fun e => e.isRealtime || e.isKept) := by
    have hsplit := List.filter_append_perm Entry.isRealtime (batch.filter fun e => e.isRealtime || e.isKept)
    rw [List.filter_filter, List.filter_filter] at hsplit
    refine List.Perm.trans (List.Perm.of_eq (congrArg₂ _ ?_ ?_)) hsplit
    · exact List.filter_congr fun e _ => by cases e.isRealtime <;> rfl
    · refine List.filter_congr fun e _ => ?_
      rw [Entry.isKept, Entry.isStored]
      cases e.isRealtime <;> simp
  have hprocess : x.process iso now together undone batch =
      (x.pushRealtime (batch.filter Entry.isRealtime)).store iso now together undone
        ((batch.filter fun e => !e.isRealtime).filter fun e => !e.isSnapshot)
        ((batch.filter fun e => !e.isRealtime).filter Entry.isSnapshot) := by
    rw [process, findSome?_eq_none_iff.2 hobject]
  have hstored := store_of_inserted (x := x.pushRealtime (batch.filter Entry.isRealtime)) _ _ hraised
    (insertSnapshots_eq_none_iff.2 hpayload)
  obtain ⟨hfailure, htaken, hevents, hpub⟩ := x.pushRealtime_frame (batch.filter Entry.isRealtime)
  rw [hprocess, hstored]
  refine ⟨hfailure, htaken, ?_, ?_⟩
  · rw [List.map_append, hevents]
    exact List.Perm.append_left _ ((List.Perm.of_eq hkept).trans hperm)
  · rw [hpub, List.append_assoc]
    exact List.Perm.append_left _
      ((List.Perm.append_left _ ((List.Perm.of_eq hkept).trans hperm)).trans hpublished)

theorem process_of_not_getsOver
    (h : ¬ ((∀ e ∈ batch, e.harmless = true) ∧ undoes together undone batch = true)) :
    (x.process iso now together undone batch).failure ≠ none := by
  rw [getsOver_iff] at h
  unfold process
  cases hobject : batch.findSome? Entry.notObject with
  | some r => exact fun hnone => by cases hnone
  | none =>
    have hobject := findSome?_eq_none_iff.1 hobject
    refine store_of_raised ?_
    by_cases hinsertable : Insertable together undone (ordered batch)
    · right
      exact fun hnone => h ⟨hobject, hinsertable, insertSnapshots_eq_none_iff.1 hnone⟩
    · left
      have hsome := insertEvents_of_not_insertable iso now hinsertable
      exact Option.ne_none_iff_isSome.2 hsome

/-! ## Runs -/

/-- The writer has not ended, and of the lines that it has taken each is in the table, and each has gone to the
subscribers, exactly when this is what becomes of it by itself. -/
structure Unharmed (x : Ingest) : Prop where
  failure : x.failure = none
  events : (x.events.map Prod.snd).Perm (x.taken.filter Entry.isKept)
  published : x.published.Perm (x.taken.filter fun e => e.isRealtime || e.isKept)

/-- The writer gets over what it takes. -/
def GetsOver (x : Ingest) : Act → Prop
  | .receive _ => True
  | .write _ together undone => (∀ e ∈ x.batch, e.harmless = true) ∧ undoes together undone x.batch = true

theorem Unharmed.start : Ingest.start.Unharmed := ⟨rfl, .refl _, .refl _⟩

/-- **One step.** -/
theorem next_unharmed_iff {maxsize : ℕ} (hx : x.Unharmed) (a : Act) :
    (x.next maxsize iso a).Unharmed ↔ x.GetsOver a := by
  cases a with
  | receive e =>
    refine iff_of_true ?_ trivial
    rw [next, receive]
    split
    · exact ⟨hx.failure, hx.events, hx.published⟩
    · exact ⟨hx.failure, hx.events, hx.published⟩
  | write now together undone =>
    have hgoal : x.GetsOver (.write now together undone) ↔
        (∀ e ∈ x.batch, e.harmless = true) ∧ undoes together undone x.batch = true := Iff.rfl
    rw [next, hgoal]
    split
    · rename_i hidle
      have hqueue : x.queue = [] := by
        rw [hx.failure] at hidle
        exact List.isEmpty_iff.1 (hidle.resolve_left (by decide))
      have hbatch : x.batch = [] := by rw [batch, hqueue, List.take_nil]
      rw [hbatch]
      refine iff_of_true hx ⟨fun e he => ?_, rfl⟩
      cases he
    · constructor
      · intro hnext
        by_contra hnot
        exact process_of_not_getsOver hnot hnext.failure
      · rintro ⟨hharmless, hundoes⟩
        obtain ⟨hfailure, htaken, hevents, hpublished⟩ := process_of_getsOver iso now
          (x := x.takeBatch) hharmless hundoes
        refine ⟨hfailure.trans hx.failure, ?_, ?_⟩
        · rw [htaken, takeBatch, List.filter_append]
          exact hevents.trans (hx.events.append_right _)
        · rw [htaken, takeBatch, List.filter_append]
          exact hpublished.trans (hx.published.append_right _)

end Ingest

/-- **The writer of events.** Through a run the writer goes on, and keeps and publishes every event on its own,
exactly when every batch consists of harmless lines and SQLite gets over it. -/
theorem unharmed_iff (maxsize : ℕ) (iso : String → Option ℤ) (acts : List Act) :
    System.Throughout (Ingest.next maxsize iso) Ingest.Unharmed .start acts ↔
      System.EachStep (Ingest.next maxsize iso) Ingest.GetsOver .start acts :=
  System.throughout_iff_eachStep (W := fun _ => True) (I := Ingest.Unharmed) (fun _ _ _ => trivial)
    (fun _ a _ hx => Ingest.next_unharmed_iff hx a) trivial Ingest.Unharmed.start acts

/-- A number between two events. -/
def numberBetween : List Act :=
  [.receive ⟨.obj [("signal", .str "a")], true, true, true⟩, .receive ⟨.int 5, true, true, true⟩,
    .receive ⟨.obj [("signal", .str "b")], true, true, true⟩, .write 0 true true]

/-- The number ends the writer, and both events are lost. -/
theorem number_ends_writer :
    (numberBetween.foldl (Ingest.next 10 fun _ => none) .start).failure = some (.attributeError "int" "get") ∧
    (numberBetween.foldl (Ingest.next 10 fun _ => none) .start).events.length = 0 ∧
    ¬ System.Throughout (Ingest.next 10 fun _ => none) Ingest.Unharmed .start numberBetween := by
  refine ⟨by decide, by decide, ?_⟩
  rintro ⟨-, -, -, -, h⟩
  have hfailure := h.failure
  revert hfailure
  decide

end LlmGateway.EventStore
