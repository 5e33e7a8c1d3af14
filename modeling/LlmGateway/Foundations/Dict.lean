import Mathlib.Data.Finset.Card
import Mathlib.Data.List.Nodup
import Mathlib.Data.List.Perm.Basic

/-!
# Insertion-ordered dictionaries

Finite maps with the iteration order of a Python `dict`: a list of items with distinct keys,
assignment to a present key keeping its place and assignment to a new key appending at the end.
The keys' distinctness is a field, so that every dictionary built here has it.

Everything is said through `get?` (`get?_set`, `get?_erase`, `mem_items_iff`). The one quantity that
is not pointwise is `count`, the number of items satisfying a predicate: `count_add_weight` says
how it moves when the dictionary and the predicate change at one key, and it is the only lemma the
counting arguments over dictionaries need.
-/

namespace LlmGateway

/-- A finite map with the iteration order of a Python `dict`. -/
structure Dict (κ ν : Type*) where
  items : List (κ × ν)
  nodup : (items.map Prod.fst).Nodup

namespace Dict

variable {κ ν : Type*}

/-- The dictionary without items. -/
def empty : Dict κ ν := ⟨[], List.nodup_nil⟩

instance : EmptyCollection (Dict κ ν) := ⟨empty⟩

/-- The number of items satisfying `p`. -/
def count (d : Dict κ ν) (p : κ → ν → Bool) : ℕ := d.items.countP fun e => p e.1 e.2

/-- What the key `k`, read as `o`, contributes to a count. -/
def weight (p : κ → ν → Bool) (k : κ) : Option ν → ℕ
  | none => 0
  | some v => if p k v then 1 else 0

@[simp] theorem weight_none (p : κ → ν → Bool) (k : κ) : weight p k none = 0 := rfl

@[simp] theorem weight_some (p : κ → ν → Bool) (k : κ) (v : ν) :
    weight p k (some v) = if p k v then 1 else 0 := rfl

variable {d d' : Dict κ ν} {j k : κ} {l : List (κ × ν)} {v : ν} {p q : κ → ν → Bool}

theorem ext_items (h : d.items = d'.items) : d = d' := by
  cases d
  cases d'
  cases h
  rfl

variable [DecidableEq κ]

/-! ## Association lists -/

/-- The value of the first item with key `k`. -/
def lookup (k : κ) : List (κ × ν) → Option ν
  | [] => none
  | e :: l => if e.1 = k then some e.2 else lookup k l

/-- Assignment on a list of items: in place when the key is there, at the end otherwise. -/
def assign (k : κ) (v : ν) : List (κ × ν) → List (κ × ν)
  | [] => [(k, v)]
  | e :: l => if e.1 = k then (k, v) :: l else e :: assign k v l

theorem mem_map_fst_assign :
    j ∈ (assign k v l).map Prod.fst ↔ j = k ∨ j ∈ l.map Prod.fst := by
  induction l with
  | nil => simp [assign]
  | cons e l ih =>
    by_cases h : e.1 = k
    · simp [assign, h]
    · rw [assign, if_neg h, List.map_cons, List.mem_cons, ih, List.map_cons, List.mem_cons]
      tauto

theorem nodup_assign (h : (l.map Prod.fst).Nodup) : ((assign k v l).map Prod.fst).Nodup := by
  induction l with
  | nil => simp [assign]
  | cons e l ih =>
    rw [List.map_cons, List.nodup_cons] at h
    by_cases hk : e.1 = k
    · rw [assign, if_pos hk, List.map_cons, List.nodup_cons]
      exact hk ▸ h
    · rw [assign, if_neg hk, List.map_cons, List.nodup_cons, mem_map_fst_assign, not_or]
      exact ⟨⟨hk, h.1⟩, ih h.2⟩

theorem assign_eq_self (h : lookup k l = some v) : assign k v l = l := by
  induction l with
  | nil => cases h
  | cons e l ih =>
    rw [assign]
    rw [lookup] at h
    split_ifs at h ⊢ with hk
    · cases h
      rw [← hk]
    · rw [ih h]

theorem lookup_assign (k j : κ) (v : ν) (l : List (κ × ν)) :
    lookup j (assign k v l) = if j = k then some v else lookup j l := by
  induction l with
  | nil =>
    by_cases h : j = k
    · simp [assign, lookup, h]
    · simp [assign, lookup, h, Ne.symm h]
  | cons e l ih =>
    by_cases hi : e.1 = k
    · subst hi
      by_cases hj : j = e.1
      · simp [assign, lookup, hj]
      · simp [assign, lookup, hj, Ne.symm hj]
    · by_cases hj : e.1 = j
      · subst hj
        simp [assign, hi, lookup]
      · simp [assign, hi, lookup, hj, ih]

theorem lookup_filter_ne (k j : κ) (l : List (κ × ν)) :
    lookup j (l.filter fun e => e.1 ≠ k) = if j = k then none else lookup j l := by
  induction l with
  | nil => simp [lookup]
  | cons e l ih =>
    by_cases hi : e.1 = k
    · rw [List.filter_cons_of_neg (by simpa using hi), ih, lookup]
      by_cases hj : j = k
      · simp [hj]
      · simp [hj, hi, Ne.symm hj]
    · rw [List.filter_cons_of_pos (by simpa using hi), lookup, ih, lookup]
      by_cases hj : j = k
      · simp [hj, hi]
      · simp [hj]

theorem mem_iff_lookup (h : (l.map Prod.fst).Nodup) : (k, v) ∈ l ↔ lookup k l = some v := by
  induction l with
  | nil => simp [lookup]
  | cons e l ih =>
    rw [List.map_cons, List.nodup_cons] at h
    by_cases hk : e.1 = k
    · have hv : (k, v) ∉ l := fun hw => h.1 (List.mem_map.2 ⟨_, hw, hk.symm⟩)
      simp [lookup, hk, hv, Prod.ext_iff, eq_comm]
    · have hne : (k, v) ≠ e := fun he => hk (he ▸ rfl)
      simp [lookup, hk, hne, ih h.2]

theorem lookup_eq_none (h : k ∉ l.map Prod.fst) : lookup k l = none := by
  induction l with
  | nil => rfl
  | cons e l ih =>
    rw [List.map_cons, List.mem_cons, not_or] at h
    rw [lookup, if_neg (Ne.symm h.1), ih h.2]

theorem assign_of_not_mem (h : k ∉ l.map Prod.fst) :
    assign k v l = l ++ [(k, v)] := by
  induction l with
  | nil => rfl
  | cons e l ih =>
    rw [List.map_cons, List.mem_cons, not_or] at h
    rw [assign, if_neg (Ne.symm h.1), ih h.2, List.cons_append]

/-! ## Operations and their values -/

/-- `d.get(k)`. -/
def get? (d : Dict κ ν) (k : κ) : Option ν := lookup k d.items

/-- `d.get(k, v)`. -/
def getD (d : Dict κ ν) (k : κ) (v : ν) : ν := (d.get? k).getD v

/-- `k in d`. -/
def contains (d : Dict κ ν) (k : κ) : Bool := (d.get? k).isSome

/-- `d[k] = v`. -/
def set (d : Dict κ ν) (k : κ) (v : ν) : Dict κ ν := ⟨assign k v d.items, nodup_assign d.nodup⟩

/-- `d.pop(k, None)`. -/
def erase (d : Dict κ ν) (k : κ) : Dict κ ν :=
  ⟨d.items.filter fun e => e.1 ≠ k, (List.filter_sublist.map _).nodup d.nodup⟩

/-- `d.setdefault(k, v)`. -/
def setDefault (d : Dict κ ν) (k : κ) (v : ν) : Dict κ ν :=
  if d.contains k then d else d.set k v

@[simp] theorem get?_empty (k : κ) : (∅ : Dict κ ν).get? k = none := rfl

theorem get?_set (d : Dict κ ν) (k j : κ) (v : ν) :
    (d.set k v).get? j = if j = k then some v else d.get? j := lookup_assign k j v d.items

@[simp] theorem get?_set_self (d : Dict κ ν) (k : κ) (v : ν) : (d.set k v).get? k = some v := by
  simp [get?_set]

@[simp] theorem get?_set_ne (d : Dict κ ν) (h : j ≠ k) (v : ν) : (d.set k v).get? j = d.get? j := by
  simp [get?_set, h]

theorem get?_erase (d : Dict κ ν) (k j : κ) :
    (d.erase k).get? j = if j = k then none else d.get? j := lookup_filter_ne k j d.items

@[simp] theorem get?_erase_self (d : Dict κ ν) (k : κ) : (d.erase k).get? k = none := by
  simp [get?_erase]

@[simp] theorem get?_erase_ne (d : Dict κ ν) (h : j ≠ k) : (d.erase k).get? j = d.get? j := by
  simp [get?_erase, h]

theorem getD_eq (d : Dict κ ν) (k : κ) (v : ν) : d.getD k v = (d.get? k).getD v := rfl

theorem getD_set (d : Dict κ ν) (k j : κ) (u v : ν) :
    (d.set k u).getD j v = if j = k then u else d.getD j v := by
  rw [getD_eq, get?_set]
  split <;> rfl

theorem getD_erase (d : Dict κ ν) (k j : κ) (v : ν) :
    (d.erase k).getD j v = if j = k then v else d.getD j v := by
  rw [getD_eq, get?_erase]
  split <;> rfl

@[simp] theorem getD_setDefault (d : Dict κ ν) (k j : κ) (v : ν) :
    (d.setDefault k v).getD j v = d.getD j v := by
  unfold setDefault
  split
  · rfl
  · rename_i h
    rw [getD_set]
    split
    · subst j
      simp only [contains, Option.not_isSome_iff_eq_none] at h
      rw [getD_eq, h, Option.getD_none]
    · rfl

theorem set_eq_self (h : d.get? k = some v) : d.set k v = d :=
  ext_items (assign_eq_self h)

theorem contains_iff : d.contains k = true ↔ ∃ v, d.get? k = some v :=
  Option.isSome_iff_exists

theorem contains_set (h : d.contains j = true) (k : κ) (v : ν) : (d.set k v).contains j = true := by
  rw [contains, get?_set]
  split
  · rfl
  · exact h

/-- `{k: f(v) for k, v in d.items()}`, with `f` also given the key. -/
def mapVal (d : Dict κ ν) (f : κ → ν → ν) : Dict κ ν :=
  ⟨d.items.map fun e => (e.1, f e.1 e.2), by simpa [Function.comp_def] using d.nodup⟩

/-- `{k: v for k, v in d.items() if p(k, v)}`. -/
def filter (d : Dict κ ν) (p : κ → ν → Bool) : Dict κ ν :=
  ⟨d.items.filter fun e => p e.1 e.2, (List.filter_sublist.map _).nodup d.nodup⟩

theorem mem_items_iff : (k, v) ∈ d.items ↔ d.get? k = some v :=
  mem_iff_lookup d.nodup

theorem items_set_of_not_mem (h : k ∉ d.items.map Prod.fst) (v : ν) :
    (d.set k v).items = d.items ++ [(k, v)] := assign_of_not_mem h

theorem mem_items_setDefault {e : κ × ν} (h : e ∈ (d.setDefault k v).items) :
    e ∈ d.items ∨ e = (k, v) := by
  unfold setDefault at h
  split at h
  · exact .inl h
  · rename_i hk
    simp only [contains, Option.not_isSome_iff_eq_none] at hk
    have hfresh : k ∉ d.items.map Prod.fst := fun hmem => by
      obtain ⟨e', he', rfl⟩ := List.mem_map.1 hmem
      rw [mem_items_iff.1 he'] at hk
      cases hk
    rw [items_set_of_not_mem hfresh, List.mem_append, List.mem_singleton] at h
    exact h

theorem contains_setDefault (d : Dict κ ν) (k : κ) (v : ν) : (d.setDefault k v).contains k = true := by
  unfold setDefault
  split
  · assumption
  · rw [contains, get?_set_self]
    rfl

theorem setDefault_of_contains (h : d.contains k = true) (v : ν) : d.setDefault k v = d :=
  if_pos h

theorem contains_setDefault_of_contains (h : d.contains j = true) (k : κ) (v : ν) :
    (d.setDefault k v).contains j = true := by
  unfold setDefault
  split
  · exact h
  · exact contains_set h k v

theorem foldl_set_items (d : Dict κ ν) : d.items.foldl (fun d e => d.set e.1 e.2) ∅ = d := by
  have hfill : ∀ (l : List (κ × ν)) (d : Dict κ ν), ((d.items ++ l).map Prod.fst).Nodup →
      (l.foldl (fun d e => d.set e.1 e.2) d).items = d.items ++ l := by
    intro l
    induction l with
    | nil => exact fun d _ => (List.append_nil _).symm
    | cons e l ih =>
      intro d hnodup
      have hfresh : e.1 ∉ d.items.map Prod.fst := by
        rw [List.map_append, List.map_cons, List.nodup_append] at hnodup
        exact fun hmem => hnodup.2.2 _ hmem _ List.mem_cons_self rfl
      have hitems := items_set_of_not_mem hfresh e.2
      rw [List.foldl_cons, ih _ (by rwa [hitems, List.append_assoc]), hitems, List.append_assoc]
      rfl
  exact ext_items (hfill d.items ∅ d.nodup)

theorem get?_mapVal (d : Dict κ ν) (f : κ → ν → ν) (k : κ) :
    (d.mapVal f).get? k = (d.get? k).map (f k) := by
  apply Option.ext
  intro v
  rw [← mem_items_iff, Option.map_eq_some_iff]
  simp only [mapVal, List.mem_map, Prod.mk.injEq]
  constructor
  · rintro ⟨⟨j, u⟩, hmem, rfl, rfl⟩
    exact ⟨u, mem_items_iff.1 hmem, rfl⟩
  · rintro ⟨u, hu, rfl⟩
    exact ⟨(k, u), mem_items_iff.2 hu, rfl, rfl⟩

omit [DecidableEq κ] in
@[simp] theorem mapVal_self (d : Dict κ ν) : (d.mapVal fun _ v => v) = d := ext_items (List.map_id' _)

omit [DecidableEq κ] in
@[simp] theorem mapVal_mapVal (d : Dict κ ν) (f g : κ → ν → ν) :
    (d.mapVal f).mapVal g = d.mapVal fun k v => g k (f k v) := ext_items List.map_map

theorem get?_filter (d : Dict κ ν) (p : κ → ν → Bool) (k : κ) :
    (d.filter p).get? k = (d.get? k).filter (p k) := by
  apply Option.ext
  intro v
  rw [← mem_items_iff, Option.filter_eq_some_iff, ← mem_items_iff]
  simp [filter]

/-! ## Counting -/

theorem count_congr (hd : ∀ j, d'.get? j = d.get? j)
    (hp : ∀ j v, d.get? j = some v → q j v = p j v) : d'.count q = d.count p := by
  have hperm : d'.items.Perm d.items := by
    refine (List.perm_ext_iff_of_nodup (.of_map _ d'.nodup) (.of_map _ d.nodup)).2 ?_
    rintro ⟨j, v⟩
    rw [mem_items_iff, mem_items_iff, hd]
  rw [count, hperm.countP_eq]
  refine List.countP_congr ?_
  rintro ⟨j, v⟩ hj
  simp only [hp j v (mem_items_iff.1 hj)]

theorem count_erase_add_weight (d : Dict κ ν) (p : κ → ν → Bool) (k : κ) :
    (d.erase k).count p + weight p k (d.get? k) = d.count p := by
  obtain ⟨l, h⟩ := d
  change (l.filter fun e => e.1 ≠ k).countP (fun e => p e.1 e.2) + weight p k (lookup k l) =
    l.countP fun e => p e.1 e.2
  induction l with
  | nil => rfl
  | cons e l ih =>
    rw [List.map_cons, List.nodup_cons] at h
    have ih := ih h.2
    by_cases hi : e.1 = k
    · subst hi
      rw [lookup_eq_none h.1, weight_none, Nat.add_zero] at ih
      rw [List.filter_cons_of_neg (by simp), lookup, if_pos rfl, List.countP_cons, ih, weight_some]
    · rw [List.filter_cons_of_pos (by simpa using hi), lookup, if_neg hi, List.countP_cons,
        List.countP_cons]
      omega

/-- **Counts move at one key**: when the dictionaries agree and the predicates agree at every key
but `k`, the two counts differ by the contributions of `k`. -/
theorem count_add_weight (k : κ) (hd : ∀ j, j ≠ k → d'.get? j = d.get? j)
    (hp : ∀ j, j ≠ k → ∀ v, d.get? j = some v → q j v = p j v) :
    d'.count q + weight p k (d.get? k) = d.count p + weight q k (d'.get? k) := by
  have h : (d'.erase k).count q = (d.erase k).count p := by
    refine count_congr (fun j => ?_) fun j v hj => ?_
    · rw [get?_erase, get?_erase]
      split
      · rfl
      · exact hd j ‹_›
    · by_cases hjk : j = k
      · simp [hjk] at hj
      · exact hp j hjk v (by simpa [hjk] using hj)
  have h₁ := count_erase_add_weight d p k
  have h₂ := count_erase_add_weight d' q k
  omega

theorem count_mono (d : Dict κ ν)
    (h : ∀ k v, d.get? k = some v → p k v = true → q k v = true) : d.count p ≤ d.count q :=
  List.countP_mono_left fun e he => h e.1 e.2 (mem_items_iff.1 he)

theorem count_eq_zero (d : Dict κ ν) (h : ∀ k v, d.get? k = some v → p k v = false) : d.count p = 0 :=
  List.countP_eq_zero.2 fun e he => by simp [h e.1 e.2 (mem_items_iff.1 he)]

theorem weight_le_count (d : Dict κ ν) (p : κ → ν → Bool) (k : κ) :
    weight p k (d.get? k) ≤ d.count p := by
  have := count_erase_add_weight d p k
  omega

theorem count_pos (h : d.get? k = some v) (hp : p k v = true) : 0 < d.count p :=
  List.countP_pos_iff.2 ⟨(k, v), mem_items_iff.2 h, hp⟩

theorem count_eq_card (d : Dict κ ν) (S : Finset κ)
    (hS : ∀ k, k ∈ S ↔ ∃ v, d.get? k = some v ∧ p k v = true) : d.count p = S.card := by
  have hkeys : S = ((d.filter p).items.map Prod.fst).toFinset := by
    ext k
    rw [hS, List.mem_toFinset, List.mem_map]
    constructor
    · rintro ⟨v, hv, hp⟩
      exact ⟨(k, v), List.mem_filter.2 ⟨mem_items_iff.2 hv, hp⟩, rfl⟩
    · rintro ⟨⟨k', v⟩, hmem, rfl⟩
      obtain ⟨hmem, hp⟩ := List.mem_filter.1 hmem
      exact ⟨v, mem_items_iff.1 hmem, hp⟩
  rw [hkeys, List.toFinset_card_of_nodup (d.filter p).nodup, List.length_map, count, filter,
    List.countP_eq_length_filter]

theorem count_le_one (h : ∀ k v j u, d.get? k = some v → p k v = true → d.get? j = some u → p j u = true → k = j) :
    d.count p ≤ 1 := by
  by_contra hlt
  obtain ⟨⟨k, v⟩, hmem, hp⟩ := List.countP_pos_iff.1 (show 0 < d.count p by omega)
  have hk := mem_items_iff.1 hmem
  have hrest : (d.erase k).count p = 0 := by
    refine count_eq_zero _ fun j u hj => ?_
    rw [get?_erase] at hj
    split at hj
    · cases hj
    · rename_i hne
      by_contra hpj
      exact hne (h k v j u hk hp hj (by simpa using hpj)).symm
  have hsum := count_erase_add_weight d p k
  rw [hrest, hk, weight_some] at hsum
  split at hsum <;> omega

end Dict

end LlmGateway
