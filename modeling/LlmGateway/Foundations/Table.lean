import LlmGateway.Foundations.Dict
import LlmGateway.Foundations.Json

/-!
# Tables of a relational store

A table with an `INTEGER PRIMARY KEY AUTOINCREMENT`: the rows by key, and a bound above every key that
was ever given out, so that a key is never given to a second row. The statements of a transaction are
`update`, `delete` and `insert`; what they do is said through `get?`, one row at a time.

`Table.Rel` compares two tables row by row: no row is lost, and every row of the later table either comes
from the row with the same key, related to it, or has a key that is new. It is reflexive and transitive
when the relation is, and updates and insertions are instances of it, so a property of a transaction that
goes row by row follows from its statements' `WHERE` clauses. `Table.Descends` is what is left of it when
rows are also deleted: a key that has been given out has the same row, changed as the relation allows, or
none.

The text functions of SQLite that queries use (`lower`, `trim`, `LIKE` with a trailing `%`) are here too.
-/

namespace LlmGateway

/-! ## Texts -/

namespace Sql

/-- `lower(x)`: the ASCII letters only. -/
def lower (x : String) : String := String.ofList (x.toList.map Char.toLower)

/-- `trim(x)`: the blanks only. -/
def trim (x : String) : String :=
  String.ofList ((x.toList.dropWhile (· == ' ')).reverse.dropWhile (· == ' ')).reverse

/-- A pattern without `%` against the front of a text: `_` is any character, letters in either case. -/
def likeFront : List Char → List Char → Bool
  | [], _ => true
  | _ :: _, [] => false
  | p :: ps, c :: cs => (p == '_' || p.toLower == c.toLower) && likeFront ps cs

/-- `x LIKE 'pattern%'`. -/
def likeFrontOf (x pattern : String) : Bool := likeFront pattern.toList x.toList

end Sql

/-! ## Tables -/

/-- A table whose keys are given out in increasing order and never twice. -/
structure Table (ρ : Type*) where
  rows : Dict ℕ ρ
  nextId : ℕ
  lt_nextId : ∀ id r, rows.get? id = some r → id < nextId

namespace Table

variable {ρ : Type*}

/-- The table without rows. -/
def empty : Table ρ := ⟨∅, 1, by simp⟩

instance : EmptyCollection (Table ρ) := ⟨empty⟩

/-- `SELECT * WHERE id=?`. -/
def get? (t : Table ρ) (id : ℕ) : Option ρ := t.rows.get? id

/-- `SELECT * WHERE p`. -/
def select (t : Table ρ) (p : ℕ → ρ → Bool) : List (ℕ × ρ) := t.rows.items.filter fun e => p e.1 e.2

/-- `UPDATE … SET f WHERE p`. -/
def update (t : Table ρ) (p : ℕ → ρ → Bool) (f : ρ → ρ) : Table ρ where
  rows := t.rows.mapVal fun id r => if p id r then f r else r
  nextId := t.nextId
  lt_nextId id r h := by
    rw [Dict.get?_mapVal, Option.map_eq_some_iff] at h
    obtain ⟨r, h, -⟩ := h
    exact t.lt_nextId id r h

/-- `DELETE … WHERE p`. -/
def delete (t : Table ρ) (p : ℕ → ρ → Bool) : Table ρ where
  rows := t.rows.filter fun id r => !p id r
  nextId := t.nextId
  lt_nextId id r h := by
    rw [Dict.get?_filter, Option.filter_eq_some_iff] at h
    exact t.lt_nextId id r h.1

def insert (t : Table ρ) (r : ρ) : Table ρ where
  rows := t.rows.set t.nextId r
  nextId := t.nextId + 1
  lt_nextId id r' h := by
    rw [Dict.get?_set] at h
    split at h
    · omega
    · exact Nat.lt_succ_of_lt (t.lt_nextId id r' h)

@[simp] theorem get?_empty (id : ℕ) : (∅ : Table ρ).get? id = none := rfl

variable {id : ℕ} {t : Table ρ} {p : ℕ → ρ → Bool}

theorem get?_lt {r : ρ} (h : t.get? id = some r) : id < t.nextId :=
  t.lt_nextId id r h

@[simp] theorem get?_nextId (t : Table ρ) : t.get? t.nextId = none := by
  by_contra h
  obtain ⟨r, h⟩ := Option.ne_none_iff_exists'.1 h
  exact absurd (get?_lt h) (by omega)

theorem get?_update (t : Table ρ) (p : ℕ → ρ → Bool) (f : ρ → ρ) (id : ℕ) :
    (t.update p f).get? id = (t.get? id).map fun r => if p id r then f r else r :=
  Dict.get?_mapVal _ _ _

theorem get?_delete (t : Table ρ) (p : ℕ → ρ → Bool) (id : ℕ) :
    (t.delete p).get? id = (t.get? id).filter fun r => !p id r :=
  Dict.get?_filter _ _ _

theorem get?_insert (t : Table ρ) (r : ρ) (id : ℕ) :
    (t.insert r).get? id = if id = t.nextId then some r else t.get? id :=
  Dict.get?_set _ _ _ _

theorem get?_insert_of_some {r : ρ} (h : t.get? id = some r) (row : ρ) : (t.insert row).get? id = some r := by
  rw [get?_insert, if_neg (Nat.ne_of_lt (get?_lt h)), h]

theorem mem_select {e : ℕ × ρ} :
    e ∈ t.select p ↔ t.get? e.1 = some e.2 ∧ p e.1 e.2 = true := by
  rw [select, List.mem_filter]
  exact and_congr_left fun _ => Dict.mem_items_iff

theorem length_select_eq_zero : (t.select p).length = 0 ↔ ∀ id r, t.get? id = some r → p id r = false := by
  rw [List.length_eq_zero_iff, List.eq_nil_iff_forall_not_mem]
  constructor
  · intro h id r hr
    exact Bool.eq_false_iff.2 fun hp => h (id, r) (mem_select.2 ⟨hr, hp⟩)
  · intro h e he
    obtain ⟨hr, hp⟩ := mem_select.1 he
    rw [h e.1 e.2 hr] at hp
    cases hp

theorem update_inv {f : ρ → ρ} {r' : ρ} (h : (t.update p f).get? id = some r') :
    ∃ r, t.get? id = some r ∧ ((p id r = true ∧ r' = f r) ∨ (p id r = false ∧ r' = r)) := by
  rw [get?_update, Option.map_eq_some_iff] at h
  obtain ⟨r, hr, rfl⟩ := h
  refine ⟨r, hr, ?_⟩
  cases hp : p id r
  · exact .inr ⟨rfl, by simp⟩
  · exact .inl ⟨rfl, by simp⟩

theorem select_update {q : ℕ → ρ → Bool} {f : ρ → ρ} (h : ∀ id r, p id r = true → q id (f r) = false) :
    (t.update p f).select q = (t.select q).filter fun e => !p e.1 e.2 := by
  change ((t.rows.items.map fun e => (e.1, if p e.1 e.2 then f e.2 else e.2)).filter fun e => q e.1 e.2) =
    (t.rows.items.filter fun e => q e.1 e.2).filter fun e => !p e.1 e.2
  induction t.rows.items with
  | nil => rfl
  | cons e items ih =>
    rw [List.map_cons, List.filter_cons, List.filter_cons, ih]
    cases hp : p e.1 e.2 with
    | false => cases hq : q e.1 e.2 <;> simp [hp, hq]
    | true => cases hq : q e.1 e.2 <;> simp [hp, h e.1 e.2 hp]

/-- **A loop over selected rows.** When each step changes the row it is for, by what was selected of it,
the loop changes the selected rows. -/
theorem foldlM_select {ε : Type} {f : ρ → ρ → ρ} {step : Table ρ → ℕ × ρ → Except ε (Table ρ)}
    (hstep : ∀ t e t', step t e = .ok t' →
      ∀ i, t'.get? i = (t.get? i).map fun r => if i = e.1 then f e.2 r else r)
    {t' : Table ρ} (h : (t.select p).foldlM step t = .ok t') (i : ℕ) :
    t'.get? i = (t.get? i).map fun r => if p i r then f r r else r := by
  have hnodup : ((t.select p).map Prod.fst).Nodup := (List.filter_sublist.map _).nodup t.rows.nodup
  have hloop : ∀ (l : List (ℕ × ρ)) (u : Table ρ), (l.map Prod.fst).Nodup → l.foldlM step u = .ok t' →
      t'.get? i = (u.get? i).map fun r => (Dict.lookup i l).elim r fun r₀ => f r₀ r := by
    intro l
    induction l with
    | nil =>
      intro u _ h
      obtain rfl := Except.ok.inj h
      simp [Dict.lookup]
    | cons e l ih =>
      intro u hl h
      rw [List.map_cons, List.nodup_cons] at hl
      rw [List.foldlM_cons] at h
      cases hu : step u e with
      | error err =>
        rw [hu] at h
        cases h
      | ok v =>
        rw [hu] at h
        rw [ih v hl.2 h, hstep u e v hu i, Option.map_map]
        congr 1
        funext r
        by_cases hi : i = e.1
        · subst hi
          simp [Dict.lookup, Dict.lookup_eq_none hl.1]
        · simp [Dict.lookup, hi, Ne.symm hi]
  rw [hloop _ t hnodup h]
  cases hr : t.get? i with
  | none => rfl
  | some r =>
    have hlook : ∀ r', Dict.lookup i (t.select p) = some r' ↔ t.get? i = some r' ∧ p i r' = true :=
      fun r' => (Dict.mem_iff_lookup hnodup).symm.trans mem_select
    by_cases hp : p i r = true
    · simp [(hlook r).2 ⟨hr, hp⟩, hp]
    · have hnone : Dict.lookup i (t.select p) = none := by
        rw [Option.eq_none_iff_forall_ne_some]
        intro r' hr'
        obtain ⟨hr₁, hp₁⟩ := (hlook r').1 hr'
        obtain rfl := Option.some.inj (hr.symm.trans hr₁)
        exact hp hp₁
      simp [hnone, hp]

/-! ## Comparing tables row by row -/

/-- No row is lost, and every row of `t'` comes from the row of `t` with its key, related to it by `R`,
or its key is new and it satisfies `N`. -/
structure Rel (R : ρ → ρ → Prop) (N : ρ → Prop) (t t' : Table ρ) : Prop where
  nextId_le : t.nextId ≤ t'.nextId
  isSome : ∀ id, (t.get? id).isSome → (t'.get? id).isSome
  row : ∀ id r', t'.get? id = some r' →
    (∃ r, t.get? id = some r ∧ R r r') ∨ (t.nextId ≤ id ∧ N r')

namespace Rel

variable {R S : ρ → ρ → Prop} {N M : ρ → Prop}

theorem refl (hR : ∀ r, R r r) (t : Table ρ) : Rel R N t t where
  nextId_le := le_rfl
  isSome _ := id
  row _ r' h := .inl ⟨r', h, hR r'⟩

variable {t t' : Table ρ}

theorem trans (hR : ∀ r r' r'', R r r' → R r' r'' → R r r'') (hN : ∀ r r', N r → R r r' → N r')
    {t'' : Table ρ} (h : Rel R N t t') (h' : Rel R N t' t'') : Rel R N t t'' where
  nextId_le := Nat.le_trans h.nextId_le h'.nextId_le
  isSome id hid := h'.isSome id (h.isSome id hid)
  row id r'' hr'' := by
    obtain ⟨r', hr', hR'⟩ | ⟨hid, hn⟩ := h'.row id r'' hr''
    · obtain ⟨r, hr, hRr⟩ | ⟨hid, hn⟩ := h.row id r' hr'
      · exact .inl ⟨r, hr, hR r r' r'' hRr hR'⟩
      · exact .inr ⟨hid, hN r' r'' hn hR'⟩
    · exact .inr ⟨Nat.le_trans h.nextId_le hid, hn⟩

theorem mono (hRS : ∀ r r', R r r' → S r r') (hNM : ∀ r, N r → M r) (h : Rel R N t t') : Rel S M t t' where
  nextId_le := h.nextId_le
  isSome := h.isSome
  row id r' hr' := by
    obtain ⟨r, hr, hR⟩ | ⟨hid, hn⟩ := h.row id r' hr'
    · exact .inl ⟨r, hr, hRS r r' hR⟩
    · exact .inr ⟨hid, hNM r' hn⟩

theorem exists_row (h : Rel R N t t') {id : ℕ} {r : ρ} (hr : t.get? id = some r) :
    ∃ r', t'.get? id = some r' ∧ R r r' := by
  obtain ⟨r', hr'⟩ := Option.isSome_iff_exists.1 (h.isSome id (by simp [hr]))
  refine ⟨r', hr', ?_⟩
  obtain ⟨r₀, hr₀, hR⟩ | ⟨hid, -⟩ := h.row id r' hr'
  · obtain rfl := Option.some.inj (hr.symm.trans hr₀)
    exact hR
  · exact absurd (get?_lt hr) (by omega)

theorem update (hR : ∀ r, R r r) {p : ℕ → ρ → Bool} {f : ρ → ρ}
    (h : ∀ id r, t.get? id = some r → p id r = true → R r (f r)) : Rel R N t (t.update p f) where
  nextId_le := le_rfl
  isSome id hid := by simpa [get?_update] using hid
  row id r' hr' := by
    obtain ⟨r, hr, ⟨hp, rfl⟩ | ⟨-, rfl⟩⟩ := update_inv hr'
    · exact .inl ⟨r, hr, h id r hr hp⟩
    · exact .inl ⟨r', hr, hR r'⟩

theorem insert (hR : ∀ r, R r r) (t : Table ρ) {r : ρ} (h : N r) : Rel R N t (t.insert r) where
  nextId_le := Nat.le_succ _
  isSome id hid := by
    rw [get?_insert]
    split
    · rfl
    · exact hid
  row id r' hr' := by
    rw [get?_insert] at hr'
    split at hr'
    · exact .inr ⟨by omega, Option.some.inj hr' ▸ h⟩
    · exact .inl ⟨r', hr', hR r'⟩

end Rel

/-- The rows of `t'` with a key that `t` has given out come from the rows of `t` with these keys. -/
structure Descends (R : ρ → ρ → Prop) (t t' : Table ρ) : Prop where
  nextId_le : t.nextId ≤ t'.nextId
  row : ∀ id r', id < t.nextId → t'.get? id = some r' → ∃ r, t.get? id = some r ∧ R r r'

namespace Descends

variable {R : ρ → ρ → Prop} {N : ρ → Prop} {t t' t'' : Table ρ}

theorem refl (hR : ∀ r, R r r) (t : Table ρ) : Descends R t t := ⟨le_rfl, fun _ r' _ h => ⟨r', h, hR r'⟩⟩

theorem trans (hR : ∀ r r' r'', R r r' → R r' r'' → R r r'') (h : Descends R t t')
    (h' : Descends R t' t'') : Descends R t t'' where
  nextId_le := Nat.le_trans h.nextId_le h'.nextId_le
  row id r'' hid hr'' := by
    obtain ⟨r', hr', hR'⟩ := h'.row id r'' (Nat.lt_of_lt_of_le hid h.nextId_le) hr''
    obtain ⟨r, hr, hRr⟩ := h.row id r' hid hr'
    exact ⟨r, hr, hR r r' r'' hRr hR'⟩

theorem of_rel (h : Rel R N t t') : Descends R t t' where
  nextId_le := h.nextId_le
  row id r' hid hr' := by
    obtain hrow | ⟨hle, -⟩ := h.row id r' hr'
    · exact hrow
    · omega

theorem delete (hR : ∀ r, R r r) (t : Table ρ) (p : ℕ → ρ → Bool) : Descends R t (t.delete p) where
  nextId_le := le_rfl
  row id r' _ hr' := by
    rw [get?_delete, Option.filter_eq_some_iff] at hr'
    exact ⟨r', hr'.1, hR r'⟩

end Descends

end Table

end LlmGateway
