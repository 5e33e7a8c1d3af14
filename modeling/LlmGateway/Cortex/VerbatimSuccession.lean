import LlmGateway.EventStore.Ingest
import LlmGateway.Foundations.Utf8

/-!
# Sealed payloads and what extends them

A session is sealed with the text of its conversation, or with its messages, and may be sealed again by a payload
that extends the first. `prefix_holds` says whether it does, and `divergence_index` where it stops doing so. The
last message of a seal may grow, so that its content is compared as a text and the messages in front of it as
values.

Values are compared as Python compares them: a number with any number, an object with any order of its items. A
`nan` counts as one object wherever it stands inside a message.
-/

namespace LlmGateway.Cortex.Verbatim

open EventStore (floatOfText)

/-! ## Values that are equal -/

/-- Whether a value equals the number. -/
def isNumber (q : Binary64) : Json → Bool
  | .bool b => decide (q = .finite (if b then 1 else 0))
  | .int n => decide (q = .finite n)
  | .float r => decide (q = floatOfText r)
  | _ => false

mutual

/-- `x is y or x == y`. -/
def same : Json → Json → Bool
  | .null, y => match y with
    | .null => true
    | _ => false
  | .bool b, y => isNumber (.finite (if b then 1 else 0)) y
  | .int n, y => isNumber (.finite n) y
  | .float r, y => isNumber (floatOfText r) y
  | .str s, y => match y with
    | .str t => s == t
    | _ => false
  | .arr xs, y => match y with
    | .arr ys => sameElems xs ys
    | _ => false
  | .obj xs, y => match y with
    | .obj ys => decide (xs.length = ys.length) && sameItems xs ys
    | _ => false

def sameElems : List Json → List Json → Bool
  | [], ys => ys.isEmpty
  | x :: xs, ys => match ys with
    | [] => false
    | y :: ys => same x y && sameElems xs ys

/-- Whether every key has a value among `ys` that is the same. -/
def sameItems : List (String × Json) → List (String × Json) → Bool
  | [], _ => true
  | (k, x) :: xs, ys => (match Json.lookup k ys with
    | none => false
    | some y => same x y) && sameItems xs ys

end

/-- `x == y`, where a `nan` is no object but a number. -/
def equal (x y : Json) : Bool :=
  same x y && !(match x with
    | .float r => decide (floatOfText r = .nan)
    | _ => false)

mutual

/-- Objects all the way down whose keys are distinct. -/
def Keyed : Json → Prop
  | .arr elems => KeyedElems elems
  | .obj items => (items.map Prod.fst).Nodup ∧ KeyedItems items
  | _ => True

def KeyedElems : List Json → Prop
  | [] => True
  | j :: elems => Keyed j ∧ KeyedElems elems

def KeyedItems : List (String × Json) → Prop
  | [] => True
  | (_, j) :: items => Keyed j ∧ KeyedItems items

end

/-! ## Payloads -/

/-- The codecs of a seal: `"md-v1"` and `"messages-v1"`. -/
inductive Codec where
  | mdV1
  | messagesV1
  deriving DecidableEq

/-- A message: the items of its object. -/
abbrev Message := List (String × Json)

/-- The payloads of a codec. -/
def Payload : Codec → Type
  | .mdV1 => List Char
  | .messagesV1 => List Message

/-- The length of a payload: the bytes of a text, or how many messages there are. -/
def extent : (codec : Codec) → Payload codec → ℕ
  | .mdV1, text => (Utf8.encode text).length
  | .messagesV1, messages => List.length (α := Message) messages

/-- The roles of `ContinuityMessage`. -/
def roles : List String := ["system", "user", "assistant", "tool"]

/-- What `ContinuityMessage` declares: a role of the four, and a content that is a text or missing. Other items
are allowed. -/
structure ContinuityMessage (m : Message) : Prop where
  keyed : Keyed (.obj m)
  role : ∃ r ∈ roles, Json.get m "role" = .str r
  content : Json.get m "content" = .null ∨ ∃ s, Json.get m "content" = .str s

def DeclaredMessages (messages : List Message) : Prop := ∀ m ∈ messages, ContinuityMessage m

/-- A text, or messages that are as declared. -/
def Declared : (codec : Codec) → Payload codec → Prop
  | .mdV1, _ => True
  | .messagesV1, messages => DeclaredMessages messages

/-! ## The two checks -/

/-- `new[:n] == sealed[:n]`. -/
def sameMessages (new sealed : List Message) : Bool := sameElems (new.map .obj) (sealed.map .obj)

/-- Whether the content `new` of a last message grows out of the content `sealed`. -/
def grows (sealed new : Json) : Bool :=
  match sealed, new with
  | .null, _ => true
  | _, .null => false
  | sealed, new => Json.startsWith new.text sealed.text

/-- `prefix_holds` on messages. -/
def messagesPrefixHolds (sealed new : List Message) : Bool :=
  if new.length < sealed.length then false
  else
    let boundary := sealed.length - 1
    match sealed[boundary]?, new[boundary]? with
    | some lastSealed, some lastNew =>
      if !sameMessages (new.take boundary) (sealed.take boundary) then false
      else if !equal (Json.get lastSealed "role") (Json.get lastNew "role") then false
      else grows (Json.get lastSealed "content") (Json.get lastNew "content")
    -- nothing is sealed
    | _, _ => true

def prefixHolds : (codec : Codec) → Payload codec → Payload codec → Bool
  | .mdV1, sealed, new => List.isPrefixOf (α := Char) sealed new
  | .messagesV1, sealed, new => messagesPrefixHolds sealed new

/-- The first index at which the bytes differ, or how many there are on the shorter side. -/
def firstDifference : List UInt8 → List UInt8 → ℕ
  | x :: xs, y :: ys => if x ≠ y then 0 else firstDifference xs ys + 1
  | _, _ => 0

/-- The first index at which a new message is not the sealed one. -/
def firstUnequal : List Message → List Message → Option ℕ
  | m :: new, n :: sealed => if !same (.obj m) (.obj n) then some 0 else (firstUnequal new sealed).map (· + 1)
  | _, _ => none

/-- `divergence_index` on messages. -/
def messagesDivergenceIndex (sealed new : List Message) : ℕ :=
  if new.length < sealed.length then new.length
  else
    let boundary := sealed.length - 1
    match firstUnequal (new.take boundary) (sealed.take boundary) with
    | some i => i
    | none =>
      match sealed[boundary]?, new[boundary]? with
      | some lastSealed, some lastNew =>
        if !equal (Json.get lastSealed "role") (Json.get lastNew "role") then boundary
        else
          match Json.get lastSealed "content", Json.get lastNew "content" with
          | .null, _ => boundary
          | _, .null => boundary
          -- the loop over the characters returns the same index from either of its ends
          | sealedContent, newContent =>
            if Json.startsWith newContent.text sealedContent.text then sealed.length else boundary
      | _, _ => 0

def divergenceIndex : (codec : Codec) → Payload codec → Payload codec → ℕ
  | .mdV1, sealed, new => firstDifference (Utf8.encode sealed) (Utf8.encode new)
  | .messagesV1, sealed, new => messagesDivergenceIndex sealed new

/-! ## The same values -/

variable {x y z : Json}

theorem same_of_isNumber {q : Binary64} (h : isNumber q y = true) : same y z = isNumber q z := by
  cases y with
  | bool b | int n | float r => rw [of_decide_eq_true h, same]
  | null | str _ | arr _ | obj _ => simp [isNumber] at h

theorem same_null_right (h : same x .null = true) : x = .null := by
  cases x <;> simp_all [same, isNumber]

theorem same_str_right {s : String} (h : same x (.str s) = true) : x = .str s := by
  cases x <;> simp_all [same, isNumber]

theorem sameItems_lookup {xs ys : List (String × Json)} (h : sameItems xs ys = true) {k : String}
    (hx : Json.lookup k xs = some x) : ∃ y, Json.lookup k ys = some y ∧ same x y = true := by
  induction xs with
  | nil => simp [Json.lookup] at hx
  | cons e xs ih =>
    obtain ⟨j, v⟩ := e
    rw [sameItems, Bool.and_eq_true] at h
    rw [Json.lookup] at hx
    split_ifs at hx with hj
    · subst hj
      cases hy : Json.lookup j ys with
      | none => simp [hy] at h
      | some y =>
        rw [hy] at h
        exact ⟨y, rfl, Option.some.inj hx ▸ h.1⟩
    · exact ih h.2 hx

mutual

theorem same_trans : ∀ x {y z : Json}, same x y = true → same y z = true → same x z = true
  | .null, y, z, h, h' => by cases y <;> simp_all [same]
  | .bool b, y, z, h, h' => by
    rw [same] at h ⊢
    rw [← same_of_isNumber h, h']
  | .int n, y, z, h, h' => by
    rw [same] at h ⊢
    rw [← same_of_isNumber h, h']
  | .float r, y, z, h, h' => by
    rw [same] at h ⊢
    rw [← same_of_isNumber h, h']
  | .str s, y, z, h, h' => by cases y <;> simp_all [same]
  | .arr xs, y, z, h, h' => by
    cases y <;> simp only [same, Bool.false_eq_true] at h
    cases z <;> simp only [same, Bool.false_eq_true] at h' ⊢
    exact sameElems_trans xs h h'
  | .obj xs, y, z, h, h' => by
    cases y <;> simp only [same, Bool.false_eq_true, Bool.and_eq_true, decide_eq_true_eq] at h
    cases z <;> simp only [same, Bool.false_eq_true, Bool.and_eq_true, decide_eq_true_eq] at h' ⊢
    exact ⟨h.1.trans h'.1, sameItems_trans xs h.2 h'.2⟩

theorem sameElems_trans : ∀ xs {ys zs : List Json},
    sameElems xs ys = true → sameElems ys zs = true → sameElems xs zs = true
  | [], ys, zs, h, h' => by cases ys <;> simp_all [sameElems]
  | x :: xs, ys, zs, h, h' => by
    cases ys <;> simp only [sameElems, Bool.false_eq_true, Bool.and_eq_true] at h
    cases zs <;> simp only [sameElems, Bool.false_eq_true, Bool.and_eq_true] at h' ⊢
    exact ⟨same_trans x h.1 h'.1, sameElems_trans xs h.2 h'.2⟩

theorem sameItems_trans : ∀ xs {ys zs : List (String × Json)},
    sameItems xs ys = true → sameItems ys zs = true → sameItems xs zs = true
  | [], _, _, _, _ => rfl
  | (k, x) :: xs, ys, zs, h, h' => by
    rw [sameItems, Bool.and_eq_true] at h ⊢
    refine ⟨?_, sameItems_trans xs h.2 h'⟩
    cases hy : Json.lookup k ys with
    | none => simp [hy] at h
    | some y =>
      obtain ⟨z, hz, hyz⟩ := sameItems_lookup h' hy
      rw [hy] at h
      rw [hz]
      exact same_trans x h.1 hyz

end

mutual

theorem same_refl : ∀ x, Keyed x → same x x = true
  | .null, _ => rfl
  | .bool _, _ => by rw [same, isNumber, decide_eq_true rfl]
  | .int _, _ => by rw [same, isNumber, decide_eq_true rfl]
  | .float _, _ => by rw [same, isNumber, decide_eq_true rfl]
  | .str _, _ => by simp [same]
  | .arr xs, h => by
    rw [Keyed] at h
    simp only [same, sameElems_refl xs h]
  | .obj xs, h => by
    rw [Keyed] at h
    simp only [same, sameItems_self xs h.2 fun _ he => Json.lookup_of_mem h.1 he, decide_true, Bool.and_self]

theorem sameElems_refl : ∀ xs, KeyedElems xs → sameElems xs xs = true
  | [], _ => rfl
  | x :: xs, h => by
    rw [KeyedElems] at h
    simp only [sameElems, same_refl x h.1, sameElems_refl xs h.2, Bool.and_self]

theorem sameItems_self : ∀ xs {ys : List (String × Json)}, KeyedItems xs →
    (∀ e ∈ xs, Json.lookup e.1 ys = some e.2) → sameItems xs ys = true
  | [], _, _, _ => rfl
  | (k, x) :: xs, ys, h, hlookup => by
    rw [KeyedItems] at h
    have hx : Json.lookup k ys = some x := hlookup (k, x) (List.mem_cons_self ..)
    have hrest := sameItems_self xs h.2 fun e he => hlookup e (List.mem_cons_of_mem _ he)
    simp only [sameItems, hx, same_refl x h.1, hrest, Bool.and_self]

end

theorem same_get {xs ys : List (String × Json)} (hxs : Keyed (.obj xs)) (h : same (.obj xs) (.obj ys) = true)
    (k : String) : same (Json.get xs k) (Json.get ys k) = true := by
  simp only [same, Bool.and_eq_true, decide_eq_true_eq] at h
  obtain ⟨hlength, hitems⟩ := h
  rw [Keyed] at hxs
  cases hx : Json.lookup k xs with
  | some x =>
    obtain ⟨y, hy, hxy⟩ := sameItems_lookup hitems hx
    rw [Json.get, Json.get, hx, hy]
    exact hxy
  | none =>
    -- as many keys, and all of them keys of the other
    have hsub : xs.map Prod.fst ⊆ ys.map Prod.fst := by
      intro j hj
      obtain ⟨x, hx⟩ := Option.ne_none_iff_exists'.1 (Json.lookup_ne_none.2 hj)
      obtain ⟨y, hy, -⟩ := sameItems_lookup hitems hx
      exact Json.lookup_ne_none.1 (by rw [hy]; exact Option.some_ne_none y)
    have hperm : (xs.map Prod.fst).Perm (ys.map Prod.fst) :=
      (hxs.1.subperm hsub).perm_of_length_le (by simp [hlength])
    have hy : Json.lookup k ys = none := by
      by_contra hne
      exact Json.lookup_ne_none.2 (hperm.mem_iff.2 (Json.lookup_ne_none.1 hne)) hx
    rw [Json.get, Json.get, hx, hy]
    rfl

/-! ## Where the checks end -/

/-- The earlier messages and the role of the last one agree, so that its content decides. -/
structure ContentReached (sealed new : List Message) (lastSealed lastNew : Message) : Prop where
  fits : sealed.length ≤ new.length
  sealedAt : sealed[sealed.length - 1]? = some lastSealed
  newAt : new[sealed.length - 1]? = some lastNew
  earlier : sameMessages (new.take (sealed.length - 1)) (sealed.take (sealed.length - 1)) = true
  role : equal (Json.get lastSealed "role") (Json.get lastNew "role") = true

/-- The content decides, and the last message of the seal has none. -/
def HollowTail : (codec : Codec) → Payload codec → Payload codec → Prop
  | .mdV1, _, _ => False
  | .messagesV1, sealed, new =>
    ∃ lastSealed lastNew, ContentReached sealed new lastSealed lastNew ∧ Json.get lastSealed "content" = .null

theorem firstDifference_eq_length {xs ys : List UInt8} : firstDifference xs ys = xs.length ↔ xs <+: ys := by
  induction xs generalizing ys with
  | nil => cases ys <;> simp [firstDifference]
  | cons x xs ih =>
    cases ys with
    | nil => simp [firstDifference]
    | cons y ys =>
      rw [firstDifference, List.length_cons, List.cons_prefix_cons, ← ih]
      split_ifs with hne
      · simp [hne]
      · simp [not_not.1 hne]

theorem lt_of_firstUnequal {new sealed : List Message} {i : ℕ} (h : firstUnequal new sealed = some i) :
    i < sealed.length := by
  induction new generalizing sealed i with
  | nil => simp [firstUnequal] at h
  | cons m new ih =>
    cases sealed with
    | nil => simp [firstUnequal] at h
    | cons n sealed =>
      rw [firstUnequal] at h
      split_ifs at h
      · simp [← Option.some.inj h]
      · obtain ⟨j, hj, rfl⟩ := Option.map_eq_some_iff.1 h
        simpa using ih hj

theorem firstUnequal_eq_none {new sealed : List Message} (hlength : new.length = sealed.length) :
    firstUnequal new sealed = none ↔ sameMessages new sealed = true := by
  induction new generalizing sealed with
  | nil =>
    rw [List.eq_nil_of_length_eq_zero hlength.symm]
    exact ⟨fun _ => rfl, fun _ => rfl⟩
  | cons m new ih =>
    cases sealed with
    | nil => simp at hlength
    | cons n sealed =>
      rw [List.length_cons, List.length_cons, Nat.add_right_cancel_iff] at hlength
      have hcons : sameMessages (m :: new) (n :: sealed) =
          (same (.obj m) (.obj n) && sameMessages new sealed) := by
        simp only [sameMessages, List.map_cons, sameElems]
      rw [firstUnequal, hcons, Bool.and_eq_true, ← ih hlength]
      split_ifs with hne
      · simp only [Bool.not_eq_true'] at hne
        simp [hne]
      · simp only [Bool.not_eq_true', Bool.not_eq_false] at hne
        simp [hne]

variable {sealed new : List Message}

theorem exists_last (hsealed : sealed ≠ []) (hfits : sealed.length ≤ new.length) :
    ∃ lastSealed lastNew, sealed[sealed.length - 1]? = some lastSealed ∧
      new[sealed.length - 1]? = some lastNew := by
  have hpos := List.length_pos_iff.2 hsealed
  exact ⟨_, _, List.getElem?_eq_getElem (by omega), List.getElem?_eq_getElem (by omega)⟩

theorem messagesPrefixHolds_iff : messagesPrefixHolds sealed new = true ↔
    sealed = [] ∨ ∃ lastSealed lastNew, ContentReached sealed new lastSealed lastNew ∧
      grows (Json.get lastSealed "content") (Json.get lastNew "content") = true := by
  by_cases hsealed : sealed = []
  · simp [hsealed, messagesPrefixHolds]
  rw [or_iff_right hsealed, messagesPrefixHolds]
  split_ifs with hshort
  · refine ⟨False.elim, ?_⟩
    rintro ⟨a, b, h, -⟩
    exact absurd h.fits (by omega)
  obtain ⟨a, b, ha, hb⟩ := exists_last hsealed (not_lt.1 hshort)
  simp only [ha, hb]
  constructor
  · intro h
    split_ifs at h with hearlier hrole
    exact ⟨a, b, ⟨not_lt.1 hshort, ha, hb, by simpa using hearlier, by simpa using hrole⟩, h⟩
  · rintro ⟨_, _, h, hgrows⟩
    cases ha.symm.trans h.sealedAt
    cases hb.symm.trans h.newAt
    simp [h.earlier, h.role, hgrows]

theorem messagesDivergenceIndex_iff : messagesDivergenceIndex sealed new = sealed.length ↔
    sealed = [] ∨ ∃ lastSealed lastNew, ContentReached sealed new lastSealed lastNew ∧
      grows (Json.get lastSealed "content") (Json.get lastNew "content") = true ∧
      Json.get lastSealed "content" ≠ .null := by
  by_cases hsealed : sealed = []
  · simp [hsealed, messagesDivergenceIndex, firstUnequal]
  have hpos := List.length_pos_iff.2 hsealed
  rw [or_iff_right hsealed, messagesDivergenceIndex]
  split_ifs with hshort
  · refine ⟨fun h => absurd h hshort.ne, ?_⟩
    rintro ⟨a, b, h, -⟩
    exact absurd h.fits (by omega)
  obtain ⟨a, b, ha, hb⟩ := exists_last hsealed (not_lt.1 hshort)
  simp only [ha, hb]
  have htake : (new.take (sealed.length - 1)).length = (sealed.take (sealed.length - 1)).length := by
    rw [List.length_take, List.length_take]
    omega
  have hearlier := firstUnequal_eq_none htake
  cases hfirst : firstUnequal (new.take (sealed.length - 1)) (sealed.take (sealed.length - 1)) with
  | some i =>
    have hlt := lt_of_firstUnequal hfirst
    rw [List.length_take] at hlt
    simp only
    refine ⟨fun h => absurd h (by omega), ?_⟩
    rintro ⟨_, _, h, -⟩
    simp [hfirst, h.earlier] at hearlier
  | none =>
    simp only
    have hboundary : sealed.length - 1 ≠ sealed.length := by omega
    constructor
    · intro h
      split_ifs at h with hrole
      · exact absurd h hboundary
      · refine ⟨a, b, ⟨not_lt.1 hshort, ha, hb, hearlier.1 hfirst, by simpa using hrole⟩, ?_⟩
        split at h
        · exact absurd h hboundary
        · exact absurd h hboundary
        · next hnull hnull' =>
          split_ifs at h with hstarts
          · exact ⟨by simp [grows, hstarts], hnull⟩
          · exact absurd h hboundary
    · rintro ⟨_, _, h, hgrows, hnull⟩
      cases ha.symm.trans h.sealedAt
      cases hb.symm.trans h.newAt
      rw [h.role]
      cases hc : Json.get a "content" <;> cases hd : Json.get b "content" <;> simp_all [grows]

/-! ## Seals that extend seals -/

theorem keyedElems_map {messages : List Message} (h : ∀ m ∈ messages, Keyed (.obj m)) :
    KeyedElems (messages.map .obj) := by
  induction messages with
  | nil => trivial
  | cons m messages ih =>
    rw [List.map_cons, KeyedElems]
    exact ⟨h m (List.mem_cons_self ..), ih fun n hn => h n (List.mem_cons_of_mem _ hn)⟩

theorem sameElems_getElem? {xs ys : List Json} (h : sameElems xs ys = true) {i : ℕ}
    (hx : xs[i]? = some x) (hy : ys[i]? = some y) : same x y = true := by
  induction xs generalizing ys i with
  | nil => simp at hx
  | cons v xs ih =>
    cases ys with
    | nil => simp at hy
    | cons w ys =>
      rw [sameElems, Bool.and_eq_true] at h
      cases i with
      | zero =>
        rw [List.getElem?_cons_zero, Option.some.injEq] at hx hy
        exact hx ▸ hy ▸ h.1
      | succ i => exact ih h.2 hx hy

theorem sameElems_take {xs ys : List Json} (h : sameElems xs ys = true) (n : ℕ) :
    sameElems (xs.take n) (ys.take n) = true := by
  induction xs generalizing ys n with
  | nil =>
    cases ys with
    | nil => simp [sameElems]
    | cons y ys => simp [sameElems] at h
  | cons x xs ih =>
    cases ys with
    | nil => simp [sameElems] at h
    | cons y ys =>
      rw [sameElems, Bool.and_eq_true] at h
      cases n with
      | zero => rfl
      | succ n => rw [List.take_succ_cons, List.take_succ_cons, sameElems, h.1, ih h.2, Bool.and_self]

theorem startsWith_iff {s p : String} : Json.startsWith s p = true ↔ p.toList <+: s.toList :=
  List.isPrefixOf_iff_prefix

theorem grows_iff :
    grows x y = true ↔ x = .null ∨ y ≠ .null ∧ x.text.toList <+: y.text.toList := by
  rw [← startsWith_iff]
  cases x <;> cases y <;> simp [grows]

theorem grows_refl (x : Json) : grows x x = true := by
  rw [grows_iff]
  by_cases hx : x = .null
  · exact .inl hx
  · exact .inr ⟨hx, List.prefix_rfl⟩

theorem grows_trans (h : grows x y = true) (h' : grows y z = true) : grows x z = true := by
  rw [grows_iff] at h h' ⊢
  obtain hx | ⟨hy, hxy⟩ := h
  · exact .inl hx
  · obtain hy' | ⟨hz, hyz⟩ := h'
    · exact absurd hy' hy
    · exact .inr ⟨hz, hxy.trans hyz⟩

theorem equal_str (r : String) : equal (.str r) (.str r) = true := by simp [equal, same]

theorem equal_trans (h : equal x y = true) (h' : equal y z = true) : equal x z = true := by
  obtain ⟨hxy, hx⟩ := (Bool.and_eq_true ..).mp h
  obtain ⟨hyz, -⟩ := (Bool.and_eq_true ..).mp h'
  exact (Bool.and_eq_true ..).mpr ⟨same_trans x hxy hyz, hx⟩

theorem messagesPrefixHolds_refl {messages : List Message} (h : DeclaredMessages messages) :
    messagesPrefixHolds messages messages = true := by
  rw [messagesPrefixHolds_iff]
  by_cases hnil : messages = []
  · exact .inl hnil
  · obtain ⟨a, _, ha, -⟩ := exists_last hnil (le_refl messages.length)
    obtain ⟨r, -, hr⟩ := (h a (List.mem_of_getElem? ha)).role
    have hearlier : sameMessages (messages.take (messages.length - 1)) (messages.take (messages.length - 1)) = true :=
      sameElems_refl _ (keyedElems_map fun m hm => (h m (List.mem_of_mem_take hm)).keyed)
    exact .inr ⟨a, a, ⟨le_rfl, ha, ha, hearlier, by rw [hr, equal_str]⟩, grows_refl _⟩

theorem ContinuityMessage.eq_of_same {m n : Message} (hm : ContinuityMessage m) (hn : Keyed (.obj n))
    (h : same (.obj n) (.obj m) = true) :
    Json.get n "role" = Json.get m "role" ∧ Json.get n "content" = Json.get m "content" := by
  have hrole := same_get hn h "role"
  have hcontent := same_get hn h "content"
  obtain ⟨r, -, hr⟩ := hm.role
  rw [hr] at hrole ⊢
  refine ⟨same_str_right hrole, ?_⟩
  obtain hnull | ⟨s, hs⟩ := hm.content
  · rw [hnull] at hcontent ⊢
    exact same_null_right hcontent
  · rw [hs] at hcontent ⊢
    exact same_str_right hcontent

theorem messagesPrefixHolds_trans {first second third : List Message} (hsecond : DeclaredMessages second)
    (hthird : DeclaredMessages third) (h : messagesPrefixHolds first second = true)
    (h' : messagesPrefixHolds second third = true) : messagesPrefixHolds first third = true := by
  rw [messagesPrefixHolds_iff] at h h' ⊢
  obtain hnil | ⟨a, b, hab, hgrows⟩ := h
  · exact .inl hnil
  have hpos : 0 < first.length := by
    obtain ⟨hlt, -⟩ := List.getElem?_eq_some_iff.1 hab.sealedAt
    omega
  have hfits := hab.fits
  obtain hnil | ⟨b', c', hbc, hgrows'⟩ := h'
  · rw [hnil, List.length_nil] at hfits
    omega
  have hfits' := hbc.fits
  refine .inr ?_
  obtain heq | hlt := hfits.eq_or_lt
  · -- the same message grows twice
    have hb := hbc.sealedAt
    rw [← heq, hab.newAt] at hb
    cases hb
    refine ⟨a, c', ⟨by omega, hab.sealedAt, by rw [heq]; exact hbc.newAt, ?_, equal_trans hab.role hbc.role⟩,
      grows_trans hgrows hgrows'⟩
    have hearlier := hbc.earlier
    rw [← heq] at hearlier
    exact sameElems_trans _ hearlier hab.earlier
  · -- the message that grew stands in front of the last one, where nothing changes
    have hearlier : sameElems ((third.take (second.length - 1)).map .obj)
        ((second.take (second.length - 1)).map .obj) = true := hbc.earlier
    obtain ⟨c, hc⟩ : ∃ c, third[first.length - 1]? = some c :=
      ⟨_, List.getElem?_eq_getElem (by omega)⟩
    have hplace : first.length - 1 < second.length - 1 := by omega
    have hsame : same (.obj c) (.obj b) = true := by
      refine sameElems_getElem? hearlier (i := first.length - 1) ?_ ?_
      · rw [List.getElem?_map, List.getElem?_take_of_lt hplace, hc, Option.map_some]
      · rw [List.getElem?_map, List.getElem?_take_of_lt hplace, hab.newAt, Option.map_some]
    obtain ⟨hrole, hcontent⟩ := (hsecond b (List.mem_of_getElem? hab.newAt)).eq_of_same
      (hthird c (List.mem_of_getElem? hc)).keyed hsame
    refine ⟨a, c, ⟨by omega, hab.sealedAt, hc, ?_, by rw [hrole]; exact hab.role⟩, by rw [hcontent]; exact hgrows⟩
    have htake := sameElems_take hearlier (first.length - 1)
    rw [← List.map_take, ← List.map_take, List.take_take, List.take_take, min_eq_left hplace.le] at htake
    exact sameElems_trans _ htake hab.earlier

theorem text_agrees (sealed new : List Char) : List.isPrefixOf sealed new = true ↔
    firstDifference (Utf8.encode sealed) (Utf8.encode new) = (Utf8.encode sealed).length := by
  rw [List.isPrefixOf_iff_prefix, firstDifference_eq_length, Utf8.encode_isPrefix_encode]

theorem messages_agree_iff (sealed new : List Message) :
    (messagesPrefixHolds sealed new = true ↔ messagesDivergenceIndex sealed new = sealed.length) ↔
      ¬ ∃ a b, ContentReached sealed new a b ∧ Json.get a "content" = .null := by
  rw [messagesPrefixHolds_iff, messagesDivergenceIndex_iff]
  constructor
  · rintro hagree ⟨a, b, hreached, hnull⟩
    have hgrows : grows (Json.get a "content") (Json.get b "content") = true := by rw [grows_iff]; exact .inl hnull
    obtain hnil | ⟨a', b', hreached', -, hne⟩ := hagree.1 (.inr ⟨a, b, hreached, hgrows⟩)
    · subst hnil
      cases hreached.sealedAt
    · cases hreached.sealedAt.symm.trans hreached'.sealedAt
      exact hne hnull
  · refine fun hhollow => or_congr_right (exists₂_congr fun a b => and_congr_right fun hreached => ?_)
    exact (and_iff_left fun hnull => hhollow ⟨a, b, hreached, hnull⟩).symm

/-- The two checks agree on a pair unless the content of the last sealed message is reached and missing: there the
payload holds as an extension, and its divergence is counted one short. A seal extends itself, and what extends an
extension of it extends it. -/
theorem prefixHolds_agrees_iff (codec : Codec) :
    (∀ sealed new : Payload codec,
      (prefixHolds codec sealed new = true ↔ divergenceIndex codec sealed new = extent codec sealed) ↔
        ¬ HollowTail codec sealed new) ∧
    (∀ sealed : Payload codec, Declared codec sealed → prefixHolds codec sealed sealed = true) ∧
    ∀ first second third : Payload codec, Declared codec second → Declared codec third →
      prefixHolds codec first second = true → prefixHolds codec second third = true →
      prefixHolds codec first third = true := by
  cases codec with
  | mdV1 =>
    refine ⟨fun sealed new => iff_of_true (text_agrees sealed new) not_false, fun sealed _ => ?_,
      fun first second third _ _ h h' => ?_⟩
    · exact List.isPrefixOf_iff_prefix.2 List.prefix_rfl
    · exact List.isPrefixOf_iff_prefix.2 ((List.isPrefixOf_iff_prefix.1 h).trans (List.isPrefixOf_iff_prefix.1 h'))
  | messagesV1 =>
    exact ⟨messages_agree_iff, fun sealed h => messagesPrefixHolds_refl h,
      fun first second third h h' => messagesPrefixHolds_trans h h'⟩

/-- A message with a role and a content. -/
def message (role : String) (content : Json) : Message := [("role", .str role), ("content", content)]

theorem continuityMessage_message {role : String} (hrole : role ∈ roles) {content : Json}
    (hcontent : content = .null ∨ ∃ s, content = .str s) : ContinuityMessage (message role content) where
  keyed := by obtain rfl | ⟨s, rfl⟩ := hcontent <;> simp [message, Keyed, KeyedItems]
  role := ⟨role, hrole, rfl⟩
  content := hcontent

theorem prefixHolds_agrees_iff_growth :
    prefixHolds .messagesV1 [message "user" (.str "a")]
      [message "user" (.str "abc"), message "assistant" (.str "d")] = true := by
  have h := (prefixHolds_agrees_iff .messagesV1).2.2 [message "user" (.str "a")] [message "user" (.str "ab")]
    [message "user" (.str "abc"), message "assistant" (.str "d")]
  refine h ?_ ?_ (by decide) (by decide)
  · intro m hm
    obtain rfl := List.mem_singleton.1 hm
    exact continuityMessage_message (by decide) (.inr ⟨_, rfl⟩)
  · intro m hm
    obtain rfl | hm := List.mem_cons.1 hm
    · exact continuityMessage_message (by decide) (.inr ⟨_, rfl⟩)
    · obtain rfl := List.mem_singleton.1 hm
      exact continuityMessage_message (by decide) (.inr ⟨_, rfl⟩)

/-- A seal that ends with a message without content extends itself, and diverges from itself at that message. -/
theorem hollowTail_disagrees : ¬ ∀ (codec : Codec) (sealed new : Payload codec),
    prefixHolds codec sealed new = true ↔ divergenceIndex codec sealed new = extent codec sealed := by
  intro h
  have hself := (h .messagesV1 [message "assistant" .null] [message "assistant" .null]).1 (by decide)
  revert hself
  decide

end LlmGateway.Cortex.Verbatim
