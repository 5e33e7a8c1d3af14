import Mathlib.Order.Defs.Unbundled

/-!
# Computations that may fail

The functions that raise are written in the `Except` monad. `bind_eq_ok` takes a `do` block apart that
returned a value, and `foldlM_rel` is the rule for a loop that stops at the first failure: what every
iteration keeps, the loop keeps. `mapM_eq_ok_iff` is the rule for a loop over a list that collects the values of a
function where it does not fail, `map_of_mapM` the one for a function that gives nothing in place of failing.
-/

namespace LlmGateway

variable {ε α β σ : Type}

theorem ok_bind (a : α) (f : α → Except ε β) : (.ok a >>= f) = f a := rfl

variable {x : Except ε α} {b : β} {l : List α} {f : α → Option β}

theorem ok_of_toOption {a : α} (h : x.toOption = some a) : x = .ok a := by
  cases x with
  | error e => cases h
  | ok b => exact congrArg Except.ok (Option.some.inj h)

theorem exists_ok_of_isOk (h : x.isOk = true) : ∃ a, x = .ok a := by
  cases x with
  | error e => cases h
  | ok a => exact ⟨a, rfl⟩

theorem bind_eq_ok {f : α → Except ε β} : (x >>= f) = .ok b ↔ ∃ a, x = .ok a ∧ f a = .ok b := by
  cases x with
  | error e =>
    constructor
    · intro h
      cases h
    · rintro ⟨a, h, -⟩
      cases h
  | ok a =>
    constructor
    · intro h
      exact ⟨a, rfl, h⟩
    · rintro ⟨a', h, hf⟩
      obtain rfl := Except.ok.inj h
      exact hf

theorem toOption_bind (x : Except ε α) (f : α → Except ε β) :
    (x >>= f).toOption = x.toOption.bind fun a => (f a).toOption := by
  cases x with
  | error e => rfl
  | ok a => rfl

theorem map_eq_ok {f : α → β} : x.map f = .ok b ↔ ∃ a, x = .ok a ∧ f a = b := by
  cases x with
  | error e =>
    constructor
    · intro h
      cases h
    · rintro ⟨a, h, -⟩
      cases h
  | ok a =>
    constructor
    · intro h
      exact ⟨a, rfl, Except.ok.inj h⟩
    · rintro ⟨a', h, rfl⟩
      obtain rfl := Except.ok.inj h
      rfl

theorem foldlM_rel {R : σ → σ → Prop} (hrefl : ∀ s, R s s) (htrans : ∀ {s t u}, R s t → R t u → R s u)
    {f : σ → α → Except ε σ} (hf : ∀ s a t, f s a = .ok t → R s t) {s t : σ} (h : l.foldlM f s = .ok t) : R s t := by
  induction l generalizing s with
  | nil =>
    obtain rfl := Except.ok.inj h
    exact hrefl _
  | cons a l ih =>
    rw [List.foldlM_cons, bind_eq_ok] at h
    obtain ⟨u, hu, h⟩ := h
    exact htrans (hf s a u hu) (ih h)

theorem map_of_mapM {l' : List β} (h : l.mapM f = some l') : l.map f = l'.map some := by
  induction l generalizing l' with
  | nil =>
    obtain rfl := Option.some.inj h
    rfl
  | cons a l ih =>
    rw [List.mapM_cons] at h
    obtain ⟨c, hc, h⟩ := Option.bind_eq_some_iff.1 h
    obtain ⟨cs, hcs, h⟩ := Option.bind_eq_some_iff.1 h
    obtain rfl := Option.some.inj h
    rw [List.map_cons, List.map_cons, ih hcs, hc]

theorem exists_of_mapM {l' : List β} (h : l.mapM f = some l') (hb : b ∈ l') :
    ∃ a ∈ l, f a = some b := by
  have hmem : some b ∈ l.map f := by
    rw [map_of_mapM h]
    exact List.mem_map_of_mem hb
  exact List.mem_map.1 hmem

theorem isSome_of_mapM (h : (l.mapM f).isSome = true) {a : α} (ha : a ∈ l) : (f a).isSome = true := by
  obtain ⟨l', hl'⟩ := Option.isSome_iff_exists.1 h
  have hmem : f a ∈ l'.map some := by
    rw [← map_of_mapM hl']
    exact List.mem_map_of_mem ha
  obtain ⟨b, -, hb⟩ := List.mem_map.1 hmem
  rw [← hb]
  rfl

theorem mapM_eq_ok_iff {f : α → Except ε β} {g : α → β} {P : α → Prop}
    (hf : ∀ a ∈ l, ∀ b, f a = .ok b ↔ P a ∧ b = g a) (bs : List β) :
    l.mapM f = .ok bs ↔ (∀ a ∈ l, P a) ∧ bs = l.map g := by
  induction l generalizing bs with
  | nil =>
    rw [List.mapM_nil]
    constructor
    · intro h
      exact ⟨fun _ ha => absurd ha List.not_mem_nil, (Except.ok.inj h).symm⟩
    · rintro ⟨-, rfl⟩
      rfl
  | cons a l ih =>
    rw [List.mapM_cons, bind_eq_ok]
    have ih := ih fun b hb => hf b (List.mem_cons_of_mem a hb)
    constructor
    · rintro ⟨b, hb, h⟩
      obtain ⟨bs', hbs', h⟩ := bind_eq_ok.1 h
      obtain ⟨hP, rfl⟩ := (hf a List.mem_cons_self b).1 hb
      obtain ⟨hall, rfl⟩ := (ih bs').1 hbs'
      exact ⟨List.forall_mem_cons.2 ⟨hP, hall⟩, (Except.ok.inj h).symm⟩
    · rintro ⟨hall, rfl⟩
      obtain ⟨hP, hall⟩ := List.forall_mem_cons.1 hall
      exact ⟨g a, (hf a List.mem_cons_self _).2 ⟨hP, rfl⟩, bind_eq_ok.2 ⟨l.map g, (ih _).2 ⟨hall, rfl⟩, rfl⟩⟩

end LlmGateway
