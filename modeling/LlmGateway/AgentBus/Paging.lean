import LlmGateway.AgentBus.Turns
import LlmGateway.Foundations.System

/-!
# Reading a thread behind a cursor

A reader asks for the turns behind the highest number that it has seen, while turns are stored and deleted.
`Traffic.Paged` says that no number of a thread is given out twice and that every turn behind the cursor with
which the reader came, or stored since, is in the pages of the reader exactly once by the time that it has
read up.

Numbers are counted on from the turns that are left in the table, so a deletion of the newest turn gives its
number free again, behind the back of the readers that have seen it. `paged_iff` says exactly when all goes
well: whenever a turn is stored, some turn of the thread that is still there has the highest number ever given
out in it, and a turn that claims to be the first one of its thread is.
-/

namespace LlmGateway.AgentBus

/-- A reader of one thread. -/
structure Reader where
  thread : String
  /-- The cursor with which the reader came. -/
  start : ℕ
  /-- The ids from here on are of turns that were stored since. -/
  since : ℕ
  /-- The highest number that the reader has seen. -/
  cursor : ℕ
  /-- The turns that were returned to the reader. -/
  pages : List (ℕ × Turn)

/-- `get_turns(thread=…, after_turn=…, last=…)`. -/
def Reader.query (reader : Reader) (last : Option ℕ) : TurnQuery where
  thread := some reader.thread
  recipient := none
  unread := false
  status := none
  includeSuperseded := false
  afterTurn := some reader.cursor
  last := last

/-- The reader behind one more page. -/
def Reader.read (A : Addresses) (s : Store) (last : Option ℕ) (reader : Reader) : Reader :=
  let page := getTurns A s (reader.query last)
  { reader with
    cursor := (page.map fun e => e.2.turnNumber).foldr max reader.cursor
    pages := reader.pages ++ page }

/-- The store, all numbers that were ever given out with their threads, and a reader. -/
structure Traffic where
  store : Store
  given : List (String × ℕ)
  reader : Option Reader

def Traffic.start : Traffic := ⟨.empty, [], none⟩

inductive Event where
  | insert (r : TurnRequest)
  | delete (turnId : ℕ) (force : Bool) (ts : String)
  | markRead (turnIds : List ℕ) (stamp : String)
  /-- A reader comes with the highest number that it has seen, `0` when it has seen no turn. -/
  | join (thread : String) (cursor : ℕ)
  | read (last : Option ℕ)

/-- The number of the turn that is new in the table. -/
def numberGiven (s s' : Store) : List (String × ℕ) :=
  ((s'.turns.get? s.turns.nextId).map fun t => (t.thread, t.turnNumber)).toList

def Traffic.step (A : Addresses) (x : Traffic) : Event → Traffic
  | .insert r =>
    match insertTurn A x.store r with
    | .ok (s, _) => { x with store := s, given := numberGiven x.store s ++ x.given }
    | .error _ => x
  | .delete turnId force ts =>
    match deleteTurn x.store turnId force ts with
    | .ok s => { x with store := s }
    | .error _ => x
  | .markRead turnIds stamp => { x with store := markTurnIdsRead x.store turnIds stamp }
  | .join thread cursor =>
    if cursor = 0 ∨ (thread, cursor) ∈ x.given then
      { x with reader := some ⟨thread, cursor, x.store.turns.nextId, cursor, []⟩ }
    else x
  | .read last => { x with reader := x.reader.map (Reader.read A x.store last) }

/-- The turn is for the reader: in its thread, stored since it came or behind the cursor with which it came,
and not superseded. -/
structure Reader.Awaits (reader : Reader) (id : ℕ) (t : Turn) : Prop where
  thread : t.thread = reader.thread
  behind : reader.since ≤ id ∨ reader.start < t.turnNumber
  status : t.status ≠ .superseded

/-- No number is given out twice in a thread, and a reader that reads on to the end has had every turn for it
that is in the table exactly once. -/
structure Traffic.Paged (A : Addresses) (x : Traffic) : Prop where
  nodup : x.given.Nodup
  returned : ∀ reader, x.reader = some reader → ∀ id t, x.store.turns.get? id = some t →
    reader.Awaits id t → ((reader.read A x.store none).pages.map Prod.fst).count id = 1

/-- When the request stores a turn, the highest number ever given out in the thread is that of a turn that is
still there; when it claims the first turn, no number was given out. -/
def Event.Keeps (A : Addresses) (x : Traffic) : Event → Prop
  | .insert r => ∀ thread, r.Appends A x.store thread → ∀ n, (thread, n) ∈ x.given →
    r.idempotentFirstTurn = false ∧
      ∃ id t, x.store.turns.get? id = some t ∧ t.thread = thread ∧ n ≤ t.turnNumber
  | _ => True

/-! ## Pages -/

theorem foldr_max_lt {l : List ℕ} {c m : ℕ} : l.foldr max c < m ↔ c < m ∧ ∀ n ∈ l, n < m := by
  induction l with
  | nil => simp
  | cons a l ih =>
    rw [List.foldr_cons, max_lt_iff, ih, List.forall_mem_cons]
    tauto

instance : IsTrans (ℕ × Turn) fun a b => ordered true a b = true where
  trans a b c hab hbc := by
    simp only [ordered, Bool.or_eq_true, Bool.and_eq_true, decide_eq_true_eq, beq_iff_eq, if_true] at *
    obtain hab | ⟨hab, hn⟩ := hab
    · obtain hbc | ⟨hbc, -⟩ := hbc
      · exact .inl (lt_trans hab hbc)
      · exact .inl (hbc ▸ hab)
    · obtain hbc | ⟨hbc, hm⟩ := hbc
      · exact .inl (hab ▸ hbc)
      · exact .inr ⟨hab.trans hbc, hn.trans hm⟩

instance : Std.Total fun a b : ℕ × Turn => ordered true a b = true where
  total a b := by
    simp only [ordered, Bool.or_eq_true, Bool.and_eq_true, decide_eq_true_eq, beq_iff_eq, if_true]
    obtain h | h | h := lt_trichotomy a.2.thread b.2.thread
    · exact .inl (.inl h)
    · obtain hn | hn := le_total a.2.turnNumber b.2.turnNumber
      · exact .inl (.inr ⟨h, hn⟩)
      · exact .inr (.inr ⟨h.symm, hn⟩)
    · exact .inr (.inl h)

variable {A : Addresses} {s : Store} {reader : Reader}

theorem mem_getTurns {e : ℕ × Turn} : e ∈ getTurns A s (reader.query none) ↔
    s.turns.get? e.1 = some e.2 ∧ e.2.thread = reader.thread ∧ e.2.status ≠ .superseded ∧
      reader.cursor < e.2.turnNumber := by
  simp [getTurns, Reader.query, Table.mem_select, TurnQuery.selects, and_assoc]

theorem getTurns_sublist (last : Option ℕ) :
    (getTurns A s (reader.query last)).Sublist (getTurns A s (reader.query none)) := by
  cases last with
  | none => exact .refl _
  | some n => exact List.take_sublist _ _

theorem getTurns_pairwise : (getTurns A s (reader.query none)).Pairwise fun a b =>
    a.2.turnNumber ≤ b.2.turnNumber := by
  have hsorted : (getTurns A s (reader.query none)).Pairwise fun a b => ordered true a b = true :=
    List.pairwise_insertionSort (fun a b => ordered true a b = true) _
  refine hsorted.imp_of_mem ?_
  intro a b ha hb hab
  simp only [ordered, (mem_getTurns.1 ha).2.1, (mem_getTurns.1 hb).2.1, Bool.or_eq_true, Bool.and_eq_true,
    decide_eq_true_eq, if_true] at hab
  exact (hab.resolve_left (lt_irrefl _)).2

/-- No two turns of a thread have one number. -/
def Numbered (turns : Table Turn) : Prop :=
  ∀ i j t u, turns.get? i = some t → turns.get? j = some u → t.thread = u.thread →
    t.turnNumber = u.turnNumber → i = j

/-- **A page ends at the new cursor**: of the turns behind the cursor it has those up to the new one. -/
theorem mem_page_iff (hu : Numbered s.turns) {last : Option ℕ} {e : ℕ × Turn}
    (he : e ∈ getTurns A s (reader.query none)) :
    e ∈ getTurns A s (reader.query last) ↔ e.2.turnNumber ≤ (reader.read A s last).cursor := by
  constructor
  · intro hmem
    exact List.le_max_of_le' _ (List.mem_map_of_mem hmem) le_rfl
  · intro hle
    cases last with
    | none => exact he
    | some n =>
      by_contra hno
      refine absurd hle (not_le.2 ?_)
      -- Every turn of the page comes before this one, and none has its number.
      change ((getTurns A s (reader.query none)).take n |>.map fun e => e.2.turnNumber).foldr max
        reader.cursor < e.2.turnNumber
      rw [foldr_max_lt]
      refine ⟨(mem_getTurns.1 he).2.2.2, ?_⟩
      intro m hm
      obtain ⟨d, hd, rfl⟩ := List.mem_map.1 hm
      have hd' := mem_getTurns.1 (List.mem_of_mem_take hd)
      have he' := mem_getTurns.1 he
      have hrest : e ∈ (getTurns A s (reader.query none)).drop n := by
        rw [← List.take_append_drop n (getTurns A s (reader.query none)), List.mem_append] at he
        exact he.resolve_left hno
      have hsorted : (getTurns A s (reader.query none)).Pairwise fun a b =>
        a.2.turnNumber ≤ b.2.turnNumber := getTurns_pairwise
      rw [← List.take_append_drop n (getTurns A s (reader.query none)), List.pairwise_append] at hsorted
      refine lt_of_le_of_ne (hsorted.2.2 d hd e hrest) ?_
      intro hnumber
      have hid := hu d.1 e.1 d.2 e.2 hd'.1 he'.1 (hd'.2.1.trans he'.2.1.symm) hnumber
      have hturn := Option.some.inj (hd'.1.symm.trans (hid ▸ he'.1))
      exact hno (Prod.ext hid hturn ▸ hd)

theorem count_page (hu : Numbered s.turns) (last : Option ℕ) {id : ℕ} {t : Turn}
    (ht : s.turns.get? id = some t) (haw : reader.Awaits id t) :
    ((getTurns A s (reader.query last)).map Prod.fst).count id =
      if reader.cursor < t.turnNumber ∧ t.turnNumber ≤ (reader.read A s last).cursor then 1 else 0 := by
  have hmem : id ∈ (getTurns A s (reader.query last)).map Prod.fst ↔
      reader.cursor < t.turnNumber ∧ t.turnNumber ≤ (reader.read A s last).cursor := by
    constructor
    · intro h
      obtain ⟨e, he, rfl⟩ := List.mem_map.1 h
      have hall := (getTurns_sublist last).subset he
      obtain ⟨hget, -, -, hlt⟩ := mem_getTurns.1 hall
      obtain rfl := Option.some.inj (hget.symm.trans ht)
      exact ⟨hlt, (mem_page_iff hu hall).1 he⟩
    · rintro ⟨hlt, hle⟩
      have hall : (id, t) ∈ getTurns A s (reader.query none) :=
        mem_getTurns.2 ⟨ht, haw.thread, haw.status, hlt⟩
      exact List.mem_map.2 ⟨(id, t), (mem_page_iff hu hall).2 hle, rfl⟩
  split
  · rename_i hin
    exact List.count_eq_one_of_mem (getTurns_nodup (reader.query last)) (hmem.2 hin)
  · rename_i hout
    exact List.count_eq_zero.2 fun h => hout (hmem.1 h)

theorem cursor_le_read (last : Option ℕ) : reader.cursor ≤ (reader.read A s last).cursor := by
  by_contra h
  have := (foldr_max_lt.1 (not_le.1 h)).1
  omega

/-- The pages so far have every turn for the reader that is not behind its cursor once, and no other. -/
def Reader.Served (reader : Reader) (turns : Table Turn) : Prop :=
  ∀ id t, turns.get? id = some t → reader.Awaits id t →
    (reader.pages.map Prod.fst).count id = if reader.cursor < t.turnNumber then 0 else 1

theorem served_iff (hu : Numbered s.turns) : reader.Served s.turns ↔ ∀ id t, s.turns.get? id = some t →
    reader.Awaits id t → ((reader.read A s none).pages.map Prod.fst).count id = 1 := by
  refine forall₄_congr fun id t ht haw => ?_
  have hnext := count_page (A := A) hu none ht haw
  have hend : reader.cursor < t.turnNumber → t.turnNumber ≤ (reader.read A s none).cursor := by
    intro hlt
    have hmem : (id, t) ∈ getTurns A s (reader.query none) :=
      mem_getTurns.2 ⟨ht, haw.thread, haw.status, hlt⟩
    exact (mem_page_iff hu hmem).1 hmem
  change _ ↔ ((reader.pages ++ getTurns A s (reader.query none)).map Prod.fst).count id = 1
  rw [List.map_append, List.count_append, hnext]
  by_cases hlt : reader.cursor < t.turnNumber
  · rw [if_pos hlt, if_pos ⟨hlt, hend hlt⟩]
    omega
  · rw [if_neg hlt, if_neg fun h => hlt h.1]
    omega

theorem Reader.Served.read (hu : Numbered s.turns) (h : reader.Served s.turns) (last : Option ℕ) :
    (reader.read A s last).Served s.turns := by
  intro id t ht haw
  have haw' : reader.Awaits id t := ⟨haw.thread, haw.behind, haw.status⟩
  have hle : reader.cursor ≤ (reader.read A s last).cursor := cursor_le_read last
  change ((reader.pages ++ getTurns A s (reader.query last)).map Prod.fst).count id = _
  rw [List.map_append, List.count_append, h id t ht haw', count_page hu last ht haw']
  split_ifs <;> omega

/-! ## Steps -/

/-- What a turn that is in the table may become. -/
structure Turn.Becomes (t t' : Turn) : Prop where
  thread : t'.thread = t.thread
  turnNumber : t'.turnNumber = t.turnNumber
  status : t.status = .superseded → t'.status = .superseded

theorem Turn.Becomes.refl (t : Turn) : t.Becomes t := ⟨rfl, rfl, id⟩

theorem Turn.Becomes.trans (t t' t'' : Turn) (h : t.Becomes t') (h' : t'.Becomes t'') : t.Becomes t'' :=
  ⟨h'.thread.trans h.thread, h'.turnNumber.trans h.turnNumber, fun hs => h'.status (h.status hs)⟩

theorem storeTurn_rel (turns : Table Turn) (row : Turn) :
    Table.Rel Turn.Becomes (fun t => t.thread = row.thread ∧ t.turnNumber = row.turnNumber) turns
      (storeTurn turns row) :=
  Table.Rel.trans Turn.Becomes.trans
    (fun _ _ hn hb => ⟨hb.thread.trans hn.1, hb.turnNumber.trans hn.2⟩)
    (Table.Rel.insert Turn.Becomes.refl turns ⟨rfl, rfl⟩)
    (Table.Rel.update Turn.Becomes.refl fun _ _ _ _ => ⟨rfl, rfl, fun _ => rfl⟩)

theorem markTurnIdsRead_descends (s : Store) (turnIds : List ℕ) (stamp : String) :
    Table.Descends Turn.Becomes s.turns (markTurnIdsRead s turnIds stamp).turns := by
  refine .of_rel (N := fun _ => True) ?_
  exact Table.Rel.update Turn.Becomes.refl fun _ _ _ _ => ⟨rfl, rfl, id⟩

variable {s : Store} {x : Traffic} {r : TurnRequest} {thread : String}

theorem deleteTurn_descends {s' : Store} {turnId : ℕ} {force : Bool} {ts : String}
    (h : deleteTurn s turnId force ts = .ok s') :
    s'.turns.nextId = s.turns.nextId ∧ Table.Descends Turn.Becomes s.turns s'.turns := by
  unfold deleteTurn at h
  split at h
  · cases h
  · split at h
    · cases h
    · obtain rfl := Except.ok.inj h
      refine ⟨rfl, .trans Turn.Becomes.trans (.of_rel (N := fun _ => True) ?_)
        (.delete Turn.Becomes.refl _ _)⟩
      exact Table.Rel.update Turn.Becomes.refl fun _ _ _ _ => ⟨rfl, rfl, id⟩

theorem step_insert_cases (A : Addresses) (x : Traffic) (r : TurnRequest) :
    (∃ threads, x.step A (.insert r) = { x with store := ⟨threads, x.store.turns⟩ } ∧
      ∀ thread, ¬ r.Appends A x.store thread) ∨
    ∃ thread threads, r.Appends A x.store thread ∧ x.step A (.insert r) =
      { x with
        store := ⟨threads, storeTurn x.store.turns (r.row A thread (r.number x.store thread))⟩
        given := (thread, r.number x.store thread) :: x.given } := by
  by_cases happ : ∃ thread, r.Appends A x.store thread
  · obtain ⟨thread, happ⟩ := happ
    obtain ⟨threads, heq⟩ := happ.insertTurn_eq
    refine .inr ⟨thread, threads, happ, ?_⟩
    have hrel := storeTurn_rel x.store.turns (r.row A thread (r.number x.store thread))
    -- The row with the next id is the new one.
    have hnew : ∃ t, (storeTurn x.store.turns (r.row A thread (r.number x.store thread))).get?
        x.store.turns.nextId = some t := by
      rw [storeTurn, Table.get?_update, Table.get?_insert, if_pos rfl]
      exact ⟨_, rfl⟩
    obtain ⟨t, ht⟩ := hnew
    obtain ⟨u, hu, -⟩ | ⟨-, hthread, hnumber⟩ := hrel.row _ t ht
    · rw [Table.get?_nextId] at hu
      cases hu
    · simp only [Traffic.step, heq, numberGiven, ht, Option.map_some, hthread, hnumber]
      rfl
  · refine .inl ?_
    have hnone : ∀ thread, ¬ r.Appends A x.store thread := fun thread h => happ ⟨thread, h⟩
    rcases h : insertTurn A x.store r with e | ⟨s', out⟩
    · exact ⟨x.store.threads, by simp only [Traffic.step, h], hnone⟩
    · have hturns := (insertTurn_cases h).resolve_right happ
      refine ⟨s'.threads, ?_, hnone⟩
      simp only [Traffic.step, h, numberGiven, hturns, Table.get?_nextId]
      rw [← hturns]
      rfl

/-! ## What every run keeps -/

/-- The cursor of the reader is the number of a turn, and its pages have turns of the table. -/
structure Reader.Sound (x : Traffic) (reader : Reader) : Prop where
  start_le : reader.start ≤ reader.cursor
  cursor_given : reader.cursor = 0 ∨ (reader.thread, reader.cursor) ∈ x.given
  pages_lt : ∀ e ∈ reader.pages, e.1 < x.store.turns.nextId

/-- The numbers given out in a thread start at `1` and leave no gap, and those of the turns in the table are
among them, each for one turn. -/
structure Traffic.Sound (x : Traffic) : Prop where
  pos : ∀ thread n, (thread, n) ∈ x.given → 0 < n
  down : ∀ thread n m, (thread, n) ∈ x.given → 0 < m → m ≤ n → (thread, m) ∈ x.given
  given : ∀ id t, x.store.turns.get? id = some t → (t.thread, t.turnNumber) ∈ x.given
  numbered : Numbered x.store.turns
  reader : ∀ reader, x.reader = some reader → reader.Sound x

theorem sound_start : Traffic.start.Sound where
  pos _ _ h := by cases h
  down _ _ _ h := by cases h
  given _ _ h := by cases h
  numbered _ _ _ _ h := by cases h
  reader _ h := by cases h

theorem Traffic.Sound.of_descends (h : x.Sound) (hid : s.turns.nextId = x.store.turns.nextId)
    (hd : Table.Descends Turn.Becomes x.store.turns s.turns) : ({ x with store := s } : Traffic).Sound where
  pos := h.pos
  down := h.down
  given id t ht := by
    obtain ⟨u, hu, hb⟩ := hd.row id t (hid ▸ Table.get?_lt ht) ht
    rw [hb.thread, hb.turnNumber]
    exact h.given id u hu
  numbered i j t u ht hu hthread hnumber := by
    obtain ⟨t₀, ht₀, hbt⟩ := hd.row i t (hid ▸ Table.get?_lt ht) ht
    obtain ⟨u₀, hu₀, hbu⟩ := hd.row j u (hid ▸ Table.get?_lt hu) hu
    rw [hbt.thread, hbu.thread] at hthread
    rw [hbt.turnNumber, hbu.turnNumber] at hnumber
    exact h.numbered i j t₀ u₀ ht₀ hu₀ hthread hnumber
  reader reader hr := by
    obtain ⟨hstart, hcursor, hpages⟩ := h.reader reader hr
    exact ⟨hstart, hcursor, fun e he => hid ▸ hpages e he⟩

theorem Traffic.Sound.given_of_lt_number (h : x.Sound) {n : ℕ}
    (hn : 0 < n) (hlt : n < r.number x.store thread) : (thread, n) ∈ x.given := by
  unfold TurnRequest.number at hlt
  split at hlt
  · omega
  · obtain ⟨id, t, ht, rfl, hle⟩ := exists_le_turnNumber hn (Nat.le_of_lt_succ hlt)
    exact h.down _ _ n (h.given id t ht) hn hle

theorem Traffic.Sound.store (h : x.Sound) (happ : r.Appends A x.store thread) (threads : Dict String Thread) :
    ({ x with
      store := ⟨threads, storeTurn x.store.turns (r.row A thread (r.number x.store thread))⟩
      given := (thread, r.number x.store thread) :: x.given } : Traffic).Sound := by
  have hrel := storeTurn_rel x.store.turns (r.row A thread (r.number x.store thread))
  have hlt : ∀ {id t}, (storeTurn x.store.turns (r.row A thread (r.number x.store thread))).get? id = some t →
      id < x.store.turns.nextId + 1 := fun ht => Table.get?_lt ht
  -- An old turn with the thread of the new one has another number.
  have hfree : ∀ i t t₀, x.store.turns.get? i = some t₀ → t₀.Becomes t → t.thread = thread →
      t.turnNumber ≠ r.number x.store thread := by
    intro i t t₀ ht₀ hb hthread
    rw [hb.turnNumber]
    exact happ.number_free ht₀ (hb.thread ▸ hthread)
  refine ⟨?_, ?_, ?_, ?_, ?_⟩
  · intro thread' n hn
    obtain heq | hn := List.mem_cons.1 hn
    · obtain ⟨rfl, rfl⟩ := Prod.mk.inj heq
      exact r.number_pos x.store thread'
    · exact h.pos thread' n hn
  · intro thread' n m hn hm hle
    obtain heq | hn := List.mem_cons.1 hn
    · obtain ⟨rfl, rfl⟩ := Prod.mk.inj heq
      obtain rfl | hlt := Nat.eq_or_lt_of_le hle
      · exact List.mem_cons_self
      · exact List.mem_cons_of_mem _ (h.given_of_lt_number hm hlt)
    · exact List.mem_cons_of_mem _ (h.down thread' n m hn hm hle)
  · intro id t ht
    obtain ⟨t₀, ht₀, hb⟩ | ⟨-, hthread, hnumber⟩ := hrel.row id t ht
    · rw [hb.thread, hb.turnNumber]
      exact List.mem_cons_of_mem _ (h.given id t₀ ht₀)
    · rw [hthread, hnumber]
      exact List.mem_cons_self
  · intro i j t u ht hu hthread hnumber
    obtain ⟨t₀, ht₀, hbt⟩ | ⟨hi, hit, hin⟩ := hrel.row i t ht
    · obtain ⟨u₀, hu₀, hbu⟩ | ⟨-, hjt, hjn⟩ := hrel.row j u hu
      · rw [hbt.thread, hbu.thread] at hthread
        rw [hbt.turnNumber, hbu.turnNumber] at hnumber
        exact h.numbered i j t₀ u₀ ht₀ hu₀ hthread hnumber
      · exact absurd (hnumber.trans hjn) (hfree i t t₀ ht₀ hbt (hthread.trans hjt))
    · obtain ⟨u₀, hu₀, hbu⟩ | ⟨hj, -, -⟩ := hrel.row j u hu
      · exact absurd (hnumber.symm.trans hin) (hfree j u u₀ hu₀ hbu (hthread.symm.trans hit))
      · have := hlt ht
        have := hlt hu
        omega
  · intro reader hr
    obtain ⟨hstart, hcursor, hpages⟩ := h.reader reader hr
    exact ⟨hstart, hcursor.imp_right (List.mem_cons_of_mem _), fun e he => Nat.lt_succ_of_lt (hpages e he)⟩

theorem cursor_read (A : Addresses) (s : Store) (reader : Reader) (last : Option ℕ) :
    (reader.read A s last).cursor = reader.cursor ∨
    ∃ e ∈ getTurns A s (reader.query last), e.2.turnNumber = (reader.read A s last).cursor := by
  change (List.map _ _).foldr max reader.cursor = reader.cursor ∨ ∃ e ∈ _, _ = (List.map _ _).foldr max _
  induction getTurns A s (reader.query last) with
  | nil => exact .inl rfl
  | cons d page ih =>
    rw [List.map_cons, List.foldr_cons]
    obtain h | h := max_choice d.2.turnNumber ((page.map fun e => e.2.turnNumber).foldr max reader.cursor)
    · exact .inr ⟨d, List.mem_cons_self, h.symm⟩
    · rw [h]
      exact ih.imp_right fun ⟨e, he, hn⟩ => ⟨e, List.mem_cons_of_mem _ he, hn⟩

theorem Reader.Sound.read (hx : x.Sound) (h : reader.Sound x) (last : Option ℕ) :
    (reader.read A x.store last).Sound x where
  start_le := h.start_le.trans (cursor_le_read last)
  cursor_given := by
    obtain hsame | ⟨e, he, hn⟩ := cursor_read A x.store reader last
    · rw [hsame]
      exact h.cursor_given
    · obtain ⟨hget, hthread, -⟩ := mem_getTurns.1 ((getTurns_sublist last).subset he)
      have hgiven := hx.given e.1 e.2 hget
      rw [hthread, hn] at hgiven
      exact .inr hgiven
  pages_lt e he := by
    obtain he | he := List.mem_append.1 he
    · exact h.pages_lt e he
    · exact Table.get?_lt (mem_getTurns.1 ((getTurns_sublist last).subset he)).1

/-- A step keeps the numbers sound. -/
theorem Traffic.Sound.step (h : x.Sound) (e : Event) : (x.step A e).Sound := by
  cases e with
  | insert r =>
    obtain ⟨threads, heq, -⟩ | ⟨thread, threads, happ, heq⟩ := step_insert_cases A x r
    · rw [heq]
      exact h.of_descends rfl (.refl Turn.Becomes.refl _)
    · rw [heq]
      exact h.store happ threads
  | delete turnId force ts =>
    simp only [Traffic.step]
    rcases hdel : deleteTurn x.store turnId force ts with err | s'
    · exact h
    · obtain ⟨hid, hd⟩ := deleteTurn_descends hdel
      exact h.of_descends hid hd
  | markRead turnIds stamp => exact h.of_descends rfl (markTurnIdsRead_descends _ _ _)
  | join thread cursor =>
    simp only [Traffic.step]
    split
    · refine ⟨h.pos, h.down, h.given, h.numbered, ?_⟩
      intro reader hr
      obtain rfl := Option.some.inj hr
      exact ⟨le_rfl, ‹_›, fun e he => by cases he⟩
    · exact h
  | read last =>
    refine ⟨h.pos, h.down, h.given, h.numbered, ?_⟩
    intro reader hr
    obtain ⟨reader₀, hr₀, rfl⟩ := Option.map_eq_some_iff.1 hr
    obtain ⟨hstart, hcursor, hpages⟩ := (h.reader reader₀ hr₀).read (A := A) h last
    exact ⟨hstart, hcursor, hpages⟩

/-! ## When paging misses nothing -/

theorem paged_iff_served (h : x.Sound) :
    x.Paged A ↔ x.given.Nodup ∧ ∀ reader, x.reader = some reader → reader.Served x.store.turns := by
  constructor
  · intro hp
    exact ⟨hp.nodup, fun reader hr => (served_iff h.numbered).2 (hp.returned reader hr)⟩
  · rintro ⟨hnodup, hserved⟩
    exact ⟨hnodup, fun reader hr => (served_iff h.numbered).1 (hserved reader hr)⟩

theorem Reader.Served.of_rows {turns turns' : Table Turn} (h : reader.Served turns)
    (hrow : ∀ id t', turns'.get? id = some t' → (∃ t, turns.get? id = some t ∧ t.Becomes t') ∨
      (t'.thread = reader.thread → reader.cursor < t'.turnNumber) ∧ ∀ e ∈ reader.pages, e.1 ≠ id) :
    reader.Served turns' := by
  intro id t' ht' haw
  obtain ⟨t, ht, hb⟩ | ⟨hbehind, hpages⟩ := hrow id t' ht'
  · have haw₀ : reader.Awaits id t :=
      ⟨hb.thread ▸ haw.thread, hb.turnNumber ▸ haw.behind, fun hs => haw.status (hb.status hs)⟩
    rw [h id t ht haw₀, hb.turnNumber]
  · rw [if_pos (hbehind haw.thread), List.count_eq_zero]
    intro hmem
    obtain ⟨e, he, hid⟩ := List.mem_map.1 hmem
    exact hpages e he hid

theorem Traffic.Paged.of_descends (hx : x.Sound) (h : x.Paged A) (hid : s.turns.nextId = x.store.turns.nextId)
    (hd : Table.Descends Turn.Becomes x.store.turns s.turns) :
    ({ x with store := s } : Traffic).Paged A := by
  obtain ⟨hnodup, hserved⟩ := (paged_iff_served hx).1 h
  refine (paged_iff_served (hx.of_descends hid hd)).2 ⟨hnodup, fun reader hr => ?_⟩
  exact (hserved reader hr).of_rows fun id t ht => .inl (hd.row id t (hid ▸ Table.get?_lt ht) ht)

theorem number_notMem_given (hx : x.Sound) :
    (thread, r.number x.store thread) ∉ x.given ↔ ∀ n, (thread, n) ∈ x.given →
      r.idempotentFirstTurn = false ∧
        ∃ id t, x.store.turns.get? id = some t ∧ t.thread = thread ∧ n ≤ t.turnNumber := by
  constructor
  · intro hnew n hn
    have hlt : n < r.number x.store thread := by
      by_contra hle
      exact hnew (hx.down thread n _ hn (r.number_pos x.store thread) (not_lt.1 hle))
    have hpos := hx.pos thread n hn
    cases hidem : r.idempotentFirstTurn with
    | true =>
      rw [TurnRequest.number, if_pos hidem] at hlt
      omega
    | false =>
      rw [TurnRequest.number, hidem, if_neg Bool.false_ne_true] at hlt
      exact ⟨rfl, exists_le_turnNumber hpos (Nat.le_of_lt_succ hlt)⟩
  · intro hkept hmem
    obtain ⟨hidem, id, t, ht, rfl, hle⟩ := hkept _ hmem
    rw [TurnRequest.number, hidem, if_neg Bool.false_ne_true] at hle
    have := le_latestTurnNumber ht
    omega

/-- **One step.** -/
theorem paged_step_iff (hx : x.Sound) (h : x.Paged A) (e : Event) : (x.step A e).Paged A ↔ e.Keeps A x := by
  obtain ⟨hnodup, hserved⟩ := (paged_iff_served hx).1 h
  cases e with
  | insert r =>
    obtain ⟨threads, heq, hnone⟩ | ⟨thread, threads, happ, heq⟩ := step_insert_cases A x r
    · rw [heq]
      exact iff_of_true (h.of_descends hx rfl (.refl Turn.Becomes.refl _))
        fun thread happ => absurd happ (hnone thread)
    · have hkeeps : Event.Keeps A x (.insert r) ↔ (thread, r.number x.store thread) ∉ x.given := by
        rw [number_notMem_given hx]
        refine ⟨fun hk => hk thread happ, fun hk thread' happ' => ?_⟩
        obtain ⟨s₁, hopen⟩ := happ.opened
        obtain ⟨s₂, hopen'⟩ := happ'.opened
        obtain ⟨-, rfl⟩ := Prod.mk.inj (Except.ok.inj (hopen.symm.trans hopen'))
        exact hk
      rw [heq, paged_iff_served (hx.store happ threads), hkeeps, List.nodup_cons]
      refine ⟨fun hp => hp.1.1, fun hnew => ⟨⟨hnew, hnodup⟩, fun reader hr => ?_⟩⟩
      refine (hserved reader hr).of_rows fun id t ht => ?_
      obtain hold | ⟨hid, hthread, hnumber⟩ := (storeTurn_rel _ _).row id t ht
      · exact .inl hold
      · have hreader := hx.reader reader hr
        refine .inr ⟨fun hthread' => ?_, fun e he hid' => ?_⟩
        · rw [hnumber]
          by_contra hle
          have hpos := r.number_pos x.store thread
          have hle : r.number x.store thread ≤ reader.cursor := not_lt.1 hle
          obtain hzero | hgiven := hreader.cursor_given
          · omega
          · rw [← hthread', hthread] at hgiven
            exact hnew (hx.down _ _ _ hgiven hpos hle)
        · have := hreader.pages_lt e he
          omega
  | delete turnId force ts =>
    refine iff_of_true ?_ trivial
    simp only [Traffic.step]
    rcases hdel : deleteTurn x.store turnId force ts with err | s'
    · exact h
    · obtain ⟨hid, hd⟩ := deleteTurn_descends hdel
      exact h.of_descends hx hid hd
  | markRead turnIds stamp =>
    exact iff_of_true (h.of_descends hx rfl (markTurnIdsRead_descends _ _ _)) trivial
  | join thread cursor =>
    refine iff_of_true ((paged_iff_served (hx.step _)).2 ?_) trivial
    simp only [Traffic.step]
    split
    · refine ⟨hnodup, fun reader hr id t ht haw => ?_⟩
      obtain rfl := Option.some.inj hr
      have hbehind := haw.behind.resolve_left (not_le.2 (Table.get?_lt ht))
      rw [if_pos hbehind]
      rfl
    · exact ⟨hnodup, hserved⟩
  | read last =>
    refine iff_of_true ((paged_iff_served (hx.step _)).2 ⟨hnodup, fun reader hr => ?_⟩) trivial
    obtain ⟨reader₀, hr₀, rfl⟩ := Option.map_eq_some_iff.1 hr
    exact (hserved reader₀ hr₀).read hx.numbered last

theorem paged_start : Traffic.start.Paged A := ⟨List.nodup_nil, fun _ h => by cases h⟩

/-- **Reading behind a cursor misses nothing, and no number is given out twice, exactly in the runs in which
every turn that is stored finds the highest number of its thread still there.** -/
theorem paged_iff (A : Addresses) (events : List Event) :
    System.Throughout (Traffic.step A) (Traffic.Paged A) .start events ↔
      System.EachStep (Traffic.step A) (fun x e => e.Keeps A x) .start events :=
  System.throughout_iff_eachStep (W := Traffic.Sound) (fun _ e h => h.step e)
    (fun _ e hx h => paged_step_iff hx h e) sound_start paged_start events

/-- A note to the team in thread 7. -/
def noteToTeam (subject ts : String) : TurnRequest where
  thread := "7"
  fromAgent := "web"
  toAgent := "team"
  subject := subject
  body := ""
  status := .open
  threadSlug := none
  afterTurn := none
  supersedesTurn := none
  onBehalf := false
  idempotentFirstTurn := false
  attestedBy := none
  userAgent := none
  autoId := "8"
  ts := ts

/-- A turn is read and deleted, and the next one gets its number. -/
def renumbered : List Event :=
  [.insert (noteToTeam "plan" "10:00"), .join "7" 0, .read none, .delete 1 false "10:05",
    .insert (noteToTeam "new plan" "10:06"), .read none]

/-- The two turns get one number, and the second one is not returned to the reader. -/
theorem renumbered_not_paged :
    (renumbered.foldl (Traffic.step plainAddresses) .start).given = [("7", 1), ("7", 1)] ∧
    ((renumbered.foldl (Traffic.step plainAddresses) .start).reader.map fun reader =>
      reader.pages.map Prod.fst) = some [1] ∧
    ((renumbered.foldl (Traffic.step plainAddresses) .start).store.turns.get? 2).isSome ∧
    ¬ System.Throughout (Traffic.step plainAddresses) (Traffic.Paged plainAddresses) .start renumbered := by
  refine ⟨by decide, by decide, by decide, ?_⟩
  rintro ⟨-, -, -, -, -, h⟩
  exact absurd h.head.nodup (by decide)

end LlmGateway.AgentBus
