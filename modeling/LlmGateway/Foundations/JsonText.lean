import LlmGateway.Foundations.Decimal
import LlmGateway.Foundations.Json
import Mathlib.Data.List.Sort

/-!
# JSON texts

`canonical` writes a value as `json.dumps` does with sorted keys and no spaces, and `loads` reads a text as
`json.loads` does. A number of more than 4300 digits is neither written nor read. What a text with a fraction or an
exponent is read as is a parameter, as is every float here a text.

What is written is read back (`loads_canonical`): the value, with its keys sorted. Distinct keys and no floats are
asked for; a text that has a surrogate without its partner is read as no text of characters.
-/

namespace LlmGateway.Json

/-! ## Writing -/

mutual

/-- The value with the keys of its objects sorted, as `sort_keys` does. -/
def sortKeys : Json → Json
  | arr elems => arr (sortKeysElems elems)
  | obj items => obj ((sortKeysItems items).insertionSort fun a b => a.1 ≤ b.1)
  | j => j

def sortKeysElems : List Json → List Json
  | [] => []
  | j :: elems => sortKeys j :: sortKeysElems elems

def sortKeysItems : List (String × Json) → List (String × Json)
  | [] => []
  | (k, v) :: items => (k, sortKeys v) :: sortKeysItems items

end

mutual

/-- No integer has more digits than are written. -/
def writable : Json → Bool
  | int n => (Decimal.toText n).isSome
  | arr elems => writableElems elems
  | obj items => writableItems items
  | _ => true

def writableElems : List Json → Bool
  | [] => true
  | j :: elems => writable j && writableElems elems

def writableItems : List (String × Json) → Bool
  | [] => true
  | (_, v) :: items => writable v && writableItems items

end

/-- `json.dumps(j, sort_keys=True, separators=(",", ":"))`; `none` is the `ValueError` of an integer that has too many
digits. -/
def canonical (j : Json) : Option (List Char) := if j.writable then some (dumpsCompact (sortKeys j)).toList else none

/-! ## Reading -/

/-- The white space of JSON. -/
def isJsonSpace (c : Char) : Bool := c == ' ' || c == '\t' || c == '\n' || c == '\r'

def skip (s : List Char) : List Char := s.dropWhile isJsonSpace

/-- A hexadecimal digit. -/
def hexDigit? (c : Char) : Option ℕ :=
  let n := c.toNat
  if 48 ≤ n ∧ n ≤ 57 then some (n - 48)
  else if 97 ≤ n ∧ n ≤ 102 then some (n - 87)
  else if 65 ≤ n ∧ n ≤ 70 then some (n - 55)
  else none

/-- Four hexadecimal digits. -/
def hex4? (a b c d : Char) : Option ℕ :=
  (hexDigit? a).bind fun i => (hexDigit? b).bind fun j => (hexDigit? c).bind fun k => (hexDigit? d).map fun l =>
    ((i * 16 + j) * 16 + k) * 16 + l

/-- The character that stands behind a backslash. -/
def escape? (c : Char) : Option ℕ :=
  if c = '"' then some 34 else if c = '\\' then some 92 else if c = '/' then some 47 else if c = 'b' then some 8
  else if c = 'f' then some 12 else if c = 'n' then some 10 else if c = 'r' then some 13 else if c = 't' then some 9
  else none

/-- The code units of a string behind its opening quote, and what is behind the string. -/
def units : List Char → Option (List ℕ × List Char)
  | [] => none
  | '"' :: s => some ([], s)
  | '\\' :: 'u' :: a :: b :: c :: d :: s =>
    (hex4? a b c d).bind fun n => (units s).map fun p => (n :: p.1, p.2)
  | '\\' :: c :: s => (escape? c).bind fun n => (units s).map fun p => (n :: p.1, p.2)
  | c :: s => if c.toNat < 32 ∨ c = '\\' then none else (units s).map fun p => (c.toNat :: p.1, p.2)

def isHighSurrogate (n : ℕ) : Bool := 0xd800 ≤ n && n < 0xdc00

def isLowSurrogate (n : ℕ) : Bool := 0xdc00 ≤ n && n < 0xe000

/-- The characters of code units: a pair of surrogates is one. -/
def fromUnits : List ℕ → Option (List Char)
  | [] => some []
  | [n] => if isHighSurrogate n || isLowSurrogate n then none else some [Char.ofNat n]
  | n :: m :: us =>
    if isHighSurrogate n then
      if isLowSurrogate m then
        (fromUnits us).map fun cs => Char.ofNat (0x10000 + (n - 0xd800) * 0x400 + (m - 0xdc00)) :: cs
      else none
    else if isLowSurrogate n then none
    else (fromUnits (m :: us)).map fun cs => Char.ofNat n :: cs

/-- A string behind its opening quote. -/
def readString (s : List Char) : Option (String × List Char) :=
  (units s).bind fun p => (fromUnits p.1).map fun cs => (String.ofList cs, p.2)

/-- The words of JSON, and those that Python adds. -/
def words : List (List Char × Json) :=
  [("null".toList, .null), ("true".toList, .bool true), ("false".toList, .bool false), ("NaN".toList, .float "nan"),
    ("Infinity".toList, .float "inf"), ("-Infinity".toList, .float "-inf")]

def readWord (s : List Char) : Option (Json × List Char) :=
  words.findSome? fun e => if e.1.isPrefixOf s then some (e.2, s.drop e.1.length) else none

/-- The digits in front, when there are any. -/
def digits? (s : List Char) : Option (List Char) :=
  let digits := s.takeWhile Char.isDigit
  if digits.isEmpty then none else some digits

/-- The fraction in front of a text, or nothing. -/
def fraction : List Char → List Char
  | '.' :: s => (digits? s).elim [] fun digits => '.' :: digits
  | _ => []

/-- The exponent in front of a text, or nothing. -/
def exponent : List Char → List Char
  | e :: s =>
    if e = 'e' ∨ e = 'E' then
      match s with
      | '+' :: t => (digits? t).elim [] fun digits => e :: '+' :: digits
      | '-' :: t => (digits? t).elim [] fun digits => e :: '-' :: digits
      | s => (digits? s).elim [] fun digits => e :: digits
    else []
  | [] => []

/-- A number without its sign. A zero stands alone. -/
def readUnsigned (float : List Char → String) (sign : List Char) (s : List Char) : Option (Json × List Char) :=
  (digits? s).bind fun digits =>
    let whole := if digits.head? = some '0' then ['0'] else digits
    let rest := s.drop whole.length
    let more := fraction rest ++ exponent (rest.drop (fraction rest).length)
    if more.isEmpty then (Decimal.ofText (sign ++ whole)).map fun n => (.int n, rest)
    else some (.float (float (sign ++ whole ++ more)), rest.drop more.length)

def readNumber (float : List Char → String) : List Char → Option (Json × List Char)
  | '-' :: s => readUnsigned float ['-'] s
  | s => readUnsigned float [] s

mutual

/-- A value in front of a text, with what is behind it. -/
def readValue (float : List Char → String) : ℕ → List Char → Option (Json × List Char)
  | 0, _ => none
  | n + 1, s =>
    match s with
    | '"' :: s => (readString s).map fun p => (.str p.1, p.2)
    | '[' :: s =>
      match skip s with
      | ']' :: s => some (.arr [], s)
      | s => (readElems float n s).map fun p => (.arr p.1, p.2)
    | '\x7b' :: s =>
      match skip s with
      | '\x7d' :: s => some (.obj [], s)
      | s => (readItems float n s).map fun p => (.obj (p.1.foldl (fun items e => set e.1 e.2 items) []), p.2)
    | s => (readWord s).or (readNumber float s)

/-- The elements of an array up to its bracket. -/
def readElems (float : List Char → String) : ℕ → List Char → Option (List Json × List Char)
  | 0, _ => none
  | n + 1, s =>
    (readValue float n s).bind fun p =>
      match skip p.2 with
      | ',' :: s => (readElems float n (skip s)).map fun q => (p.1 :: q.1, q.2)
      | ']' :: s => some ([p.1], s)
      | _ => none

/-- The items of an object up to its brace. -/
def readItems (float : List Char → String) : ℕ → List Char → Option (List (String × Json) × List Char)
  | 0, _ => none
  | n + 1, s =>
    match s with
    | '"' :: s =>
      (readString s).bind fun k =>
        match skip k.2 with
        | ':' :: s =>
          (readValue float n (skip s)).bind fun p =>
            match skip p.2 with
            | ',' :: s => (readItems float n (skip s)).map fun q => ((k.1, p.1) :: q.1, q.2)
            | '\x7d' :: s => some ([(k.1, p.1)], s)
            | _ => none
        | _ => none
    | _ => none

end

/-- `json.loads(s)`; `none` is its `ValueError`. -/
def loads (float : List Char → String) (s : List Char) : Option Json :=
  if s.head? = some '\ufeff' then none
  else (readValue float (s.length + 1) (skip s)).bind fun p => if (skip p.2).isEmpty then some p.1 else none

/-! ## Strings -/

/-- The code units of a character. -/
def toUnits (c : Char) : List ℕ :=
  if c.toNat < 0x10000 then [c.toNat]
  else [0xd800 + (c.toNat - 0x10000) / 0x400, 0xdc00 + (c.toNat - 0x10000) % 0x400]

theorem hexDigit?_digitChar {d : ℕ} (h : d < 16) : hexDigit? (Nat.digitChar d) = some d := by
  have hall : ∀ d : Fin 16, hexDigit? (Nat.digitChar d) = some d.val := by decide
  exact hall ⟨d, h⟩

theorem toList_hex (n : ℕ) : (hex 4 n).toList = [Nat.digitChar ((n >>> 12) % 16), Nat.digitChar ((n >>> 8) % 16),
    Nat.digitChar ((n >>> 4) % 16), Nat.digitChar (n % 16)] := by
  rw [hex, String.toList_ofList]
  rfl

theorem units_hex {n : ℕ} (h : n < 0x10000) (s : List Char) :
    units ('\\' :: 'u' :: (hex 4 n).toList ++ s) = (units s).map fun p => (n :: p.1, p.2) := by
  have hdigits : hex4? (Nat.digitChar ((n >>> 12) % 16)) (Nat.digitChar ((n >>> 8) % 16))
      (Nat.digitChar ((n >>> 4) % 16)) (Nat.digitChar (n % 16)) = some n := by
    simp only [hex4?, hexDigit?_digitChar (Nat.mod_lt _ (by decide : 0 < 16)), Option.bind_some, Option.map_some,
      Nat.shiftRight_eq_div_pow]
    congr 1
    omega
  rw [toList_hex]
  simp only [List.cons_append, List.nil_append, units, hdigits, Option.bind_some]

variable {c : Char} {rest t : List Char} {n : ℤ} {items : List (String × Json)}

theorem units_escape {n : ℕ} (hu : c ≠ 'u') (h : escape? c = some n) (s : List Char) :
    units ('\\' :: c :: s) = (units s).map fun p => (n :: p.1, p.2) := by
  rw [units.eq_def]
  split
  · rename_i heq
    cases heq
  · rename_i heq
    cases heq
  · rename_i heq
    cases heq
    exact (hu rfl).elim
  · rename_i heq
    cases heq
    rw [h, Option.bind_some]
  · rename_i hne heq
    cases heq
    exact (hne c s rfl rfl).elim

theorem units_plain (hquote : c ≠ '"') (hback : c ≠ '\\') (hlow : 32 ≤ c.toNat) (s : List Char) :
    units (c :: s) = (units s).map fun p => (c.toNat :: p.1, p.2) := by
  rw [units.eq_def]
  split
  · rename_i heq
    cases heq
  · rename_i heq
    cases heq
    exact (hquote rfl).elim
  · rename_i heq
    cases heq
    exact (hback rfl).elim
  · rename_i heq
    cases heq
    exact (hback rfl).elim
  · rename_i heq
    cases heq
    rw [if_neg fun h => h.elim (fun hlt => by omega) hback]

theorem units_pair {high low : ℕ} (hhigh : high < 0x10000) (hlow : low < 0x10000) (s : List Char) :
    units (("\\u" ++ hex 4 high ++ "\\u" ++ hex 4 low).toList ++ s) =
      (units s).map fun p => ([high, low] ++ p.1, p.2) := by
  have hescape : "\\u".toList = ['\\', 'u'] := rfl
  have hpair := units_hex hhigh ('\\' :: 'u' :: (hex 4 low).toList ++ s)
  rw [units_hex hlow, Option.map_map] at hpair
  simp only [String.toList_append, hescape, List.append_assoc, List.cons_append, List.nil_append] at hpair ⊢
  exact hpair

theorem toNat_bounds (c : Char) : c.toNat < 0xd800 ∨ (0xdfff < c.toNat ∧ c.toNat < 0x110000) := by
  have hvalid := c.valid
  have hval : c.toNat = c.val.toNat := rfl
  rw [UInt32.isValidChar, Nat.isValidChar] at hvalid
  omega

theorem units_dumpsChar (c : Char) (s : List Char) :
    units ((dumpsChar c).toList ++ s) = (units s).map fun p => (toUnits c ++ p.1, p.2) := by
  have hone : ∀ n, c.toNat = n → n < 0x10000 → toUnits c = [n] := by
    rintro n rfl hn
    rw [toUnits, if_pos hn]
  unfold dumpsChar
  simp only
  split
  · rename_i hc
    rw [hone 34 (by rw [hc]; rfl) (by decide)]
    exact units_escape (c := '"') (by decide) (by decide) s
  split
  · rename_i hc
    rw [hone 92 (by rw [hc]; rfl) (by decide)]
    exact units_escape (c := '\\') (by decide) (by decide) s
  split
  · rename_i hc
    rw [hone 10 (by rw [hc]; rfl) (by decide)]
    exact units_escape (c := 'n') (by decide) (by decide) s
  split
  · rename_i hc
    rw [hone 13 (by rw [hc]; rfl) (by decide)]
    exact units_escape (c := 'r') (by decide) (by decide) s
  split
  · rename_i hc
    rw [hone 9 (by rw [hc]; rfl) (by decide)]
    exact units_escape (c := 't') (by decide) (by decide) s
  split
  · rename_i hc
    rw [hone 8 hc (by decide)]
    exact units_escape (c := 'b') (by decide) (by decide) s
  split
  · rename_i hc
    rw [hone 12 hc (by decide)]
    exact units_escape (c := 'f') (by decide) (by decide) s
  split
  · rename_i hquote hback _ _ _ _ _ hplain
    rw [Bool.and_eq_true, decide_eq_true_eq, decide_eq_true_eq] at hplain
    rw [hone c.toNat rfl (by omega), String.toList_ofList]
    exact units_plain hquote hback hplain.1 s
  split
  · rename_i hlt
    rw [hone c.toNat rfl hlt, String.toList_append]
    exact units_hex hlt s
  · rename_i hlt
    have hbounds := toNat_bounds c
    rw [toUnits, if_neg hlt]
    exact units_pair (by omega) (by omega) s

theorem fromUnits_toUnits (c : Char) (us : List ℕ) :
    fromUnits (toUnits c ++ us) = (fromUnits us).map fun cs => c :: cs := by
  have hbounds := toNat_bounds c
  unfold toUnits
  split
  · have hhigh : isHighSurrogate c.toNat = false := by
      simp only [isHighSurrogate, Bool.and_eq_false_iff, decide_eq_false_iff_not]
      omega
    have hlow : isLowSurrogate c.toNat = false := by
      simp only [isLowSurrogate, Bool.and_eq_false_iff, decide_eq_false_iff_not]
      omega
    cases us with
    | nil | cons m us => simp [fromUnits, hhigh, hlow, Char.ofNat_toNat]
  · have hhigh : isHighSurrogate (0xd800 + (c.toNat - 0x10000) / 0x400) = true := by
      simp only [isHighSurrogate, Bool.and_eq_true, decide_eq_true_eq]
      omega
    have hlow : isLowSurrogate (0xdc00 + (c.toNat - 0x10000) % 0x400) = true := by
      simp only [isLowSurrogate, Bool.and_eq_true, decide_eq_true_eq]
      omega
    have hsum : 0x10000 + (0xd800 + (c.toNat - 0x10000) / 0x400 - 0xd800) * 0x400 +
        (0xdc00 + (c.toNat - 0x10000) % 0x400 - 0xdc00) = c.toNat := by omega
    simp only [List.cons_append, List.nil_append, fromUnits, hhigh, hlow, if_true, hsum, Char.ofNat_toNat]

theorem toList_dumpsStr (t : String) :
    (dumpsStr t).toList = '"' :: (t.toList.flatMap fun c => (dumpsChar c).toList) ++ ['"'] := by
  rw [dumpsStr, String.toList_append, String.toList_append, String.toList_join, List.flatMap_map]
  rfl

theorem readString_dumpsStr (t : String) (s : List Char) :
    readString ((t.toList.flatMap fun c => (dumpsChar c).toList) ++ '"' :: s) = some (t, s) := by
  have hunits : ∀ cs : List Char, units ((cs.flatMap fun c => (dumpsChar c).toList) ++ '"' :: s) =
      some (cs.flatMap toUnits, s) := by
    intro cs
    induction cs with
    | nil => simp [units]
    | cons c cs ih =>
      rw [List.flatMap_cons, List.append_assoc, units_dumpsChar, ih, Option.map_some, List.flatMap_cons]
  have hchars : ∀ cs : List Char, fromUnits (cs.flatMap toUnits) = some cs := by
    intro cs
    induction cs with
    | nil => rfl
    | cons c cs ih => rw [List.flatMap_cons, fromUnits_toUnits, ih, Option.map_some]
  rw [readString, hunits, Option.bind_some, hchars, Option.map_some, String.ofList_toList]

/-! ## Numbers -/

/-- What stands behind a value that is written. -/
def Ends (rest : List Char) : Prop := ∀ c ∈ rest.head?, c = ',' ∨ c = ']' ∨ c = '\x7d'

theorem Ends.not_isDigit (h : Ends rest) : ∀ c ∈ rest.head?, c.isDigit = false := by
  intro c hc
  obtain rfl | rfl | rfl := h c hc <;> decide

theorem toDigits_of_head_zero {n : ℕ} (h : (Nat.toDigits 10 n).head? = some '0') : Nat.toDigits 10 n = ['0'] := by
  induction n using Nat.strongRecOn with
  | ind n ih =>
    by_cases hlt : n < 10
    · rw [Nat.toDigits_of_lt_base hlt] at h ⊢
      rw [List.head?_cons, Option.some.injEq] at h
      rw [h]
    · exfalso
      rw [Nat.toDigits_of_base_le (by decide) (by omega), List.head?_append_of_ne_nil _ Nat.toDigits_ne_nil] at h
      have hzero := ih (n / 10) (by omega) h
      have hdiv := congrArg (fun s => Nat.ofDigitChars 10 s 0) hzero
      have hleft : Nat.ofDigitChars 10 (Nat.toDigits 10 (n / 10)) 0 = n / 10 := by simp
      have hright : Nat.ofDigitChars 10 ['0'] 0 = 0 := rfl
      omega

theorem digits?_append {digits : List Char} (hne : digits ≠ []) (hdigits : ∀ c ∈ digits, c.isDigit = true)
    (hrest : ∀ c ∈ rest.head?, c.isDigit = false) : digits? (digits ++ rest) = some digits := by
  have htake : (digits ++ rest).takeWhile Char.isDigit = digits := by
    rw [List.takeWhile_append_of_pos hdigits]
    cases rest with
    | nil => simp
    | cons c rest => rw [List.takeWhile_cons, hrest c rfl, if_neg Bool.false_ne_true, List.append_nil]
  simp only [digits?, htake, List.isEmpty_iff, if_neg hne]

theorem fraction_of_ends (h : Ends rest) : fraction rest = [] := by
  unfold fraction
  split
  · obtain hc | hc | hc := h _ rfl <;> cases hc
  · rfl

theorem exponent_of_ends (h : Ends rest) : exponent rest = [] := by
  cases rest with
  | nil => rfl
  | cons c rest =>
    have hc : ¬ (c = 'e' ∨ c = 'E') := by
      obtain rfl | rfl | rfl := h _ rfl <;> decide
    simp only [exponent, if_neg hc]

theorem readUnsigned_toDigits (float : List Char → String) (sign : List Char) {n : ℕ}
    (h : Ends rest) : readUnsigned float sign (Nat.toDigits 10 n ++ rest) =
      (Decimal.ofText (sign ++ Nat.toDigits 10 n)).map fun i => (.int i, rest) := by
  have hdigits : digits? (Nat.toDigits 10 n ++ rest) = some (Nat.toDigits 10 n) :=
    digits?_append Nat.toDigits_ne_nil (fun c hc => Decimal.isDigit_toDigits hc) h.not_isDigit
  have hwhole : (if (Nat.toDigits 10 n).head? = some '0' then ['0'] else Nat.toDigits 10 n) = Nat.toDigits 10 n := by
    split
    · exact (toDigits_of_head_zero ‹_›).symm
    · rfl
  rw [readUnsigned, hdigits, Option.bind_some]
  simp only [hwhole, List.drop_left, fraction_of_ends h, exponent_of_ends h, List.length_nil, List.drop_zero,
    List.append_nil, List.isEmpty_nil, if_true]

theorem readNumber_toText (float : List Char → String) (ht : Decimal.toText n = some t)
    (h : Ends rest) : readNumber float (t ++ rest) = some (.int n, rest) := by
  cases n with
  | ofNat n =>
    have hdigits : t = Nat.toDigits 10 n := by
      simp only [Decimal.toText, Decimal.natToText, Option.ite_none_right_eq_some] at ht
      exact (Option.some.inj ht.2).symm
    have hread : readNumber float (t ++ rest) = readUnsigned float [] (t ++ rest) := by
      unfold readNumber
      split
      · rename_i s heq
        exfalso
        have hhead := Decimal.isDigit_toDigits (n := n) (c := '-')
        rw [hdigits] at heq
        cases hd : Nat.toDigits 10 n with
        | nil => exact Nat.toDigits_ne_nil hd
        | cons c cs =>
          rw [hd, List.cons_append] at heq
          cases heq
          exact absurd (hhead (hd ▸ List.mem_cons_self)) (by decide)
      · rfl
    rw [hread, hdigits, readUnsigned_toDigits float [] h, List.nil_append, ← hdigits, Decimal.ofText_toText ht,
      Option.map_some]
  | negSucc n =>
    have hdigits : t = '-' :: Nat.toDigits 10 (n + 1) := by
      simp only [Decimal.toText, Decimal.natToText, Option.map_eq_some_iff, Option.ite_none_right_eq_some] at ht
      obtain ⟨digits, ⟨-, heq⟩, rfl⟩ := ht
      rw [Option.some.inj heq]
    have hread : readNumber float (t ++ rest) = readUnsigned float ['-'] (Nat.toDigits 10 (n + 1) ++ rest) := by
      rw [hdigits]
      rfl
    rw [hread, readUnsigned_toDigits float ['-'] h, List.singleton_append, ← hdigits, Decimal.ofText_toText ht,
      Option.map_some]

theorem toList_toString (ht : Decimal.toText n = some t) : (toString n).toList = t := by
  cases n with
  | ofNat n =>
    simp only [Decimal.toText, Decimal.natToText, Option.ite_none_right_eq_some] at ht
    rw [← Option.some.inj ht.2]
    exact String.toList_ofList
  | negSucc n =>
    simp only [Decimal.toText, Decimal.natToText, Option.map_eq_some_iff, Option.ite_none_right_eq_some] at ht
    obtain ⟨digits, ⟨-, heq⟩, rfl⟩ := ht
    rw [← Option.some.inj heq]
    change ("-" ++ Nat.repr (n + 1)).toList = _
    simp [Nat.repr]

/-! ## Values -/

mutual

/-- The value has distinct keys, no floats, and no integer that is not written. -/
def Readable : Json → Prop
  | int n => (Decimal.toText n).isSome = true
  | float _ => False
  | arr elems => ReadableElems elems
  | obj items => (items.map Prod.fst).Nodup ∧ ReadableItems items
  | _ => True

def ReadableElems : List Json → Prop
  | [] => True
  | j :: elems => Readable j ∧ ReadableElems elems

def ReadableItems : List (String × Json) → Prop
  | [] => True
  | (_, v) :: items => Readable v ∧ ReadableItems items

end

theorem readableElems_iff {elems : List Json} : ReadableElems elems ↔ ∀ j ∈ elems, j.Readable := by
  induction elems with
  | nil => simp [ReadableElems]
  | cons j elems ih => rw [ReadableElems, ih, List.forall_mem_cons]

theorem readableItems_iff : ReadableItems items ↔ ∀ e ∈ items, e.2.Readable := by
  induction items with
  | nil => simp [ReadableItems]
  | cons e items ih => rw [ReadableItems, ih, List.forall_mem_cons]

/-- The text of a value. -/
def chars (j : Json) : List Char := (dumpsCompact j).toList

theorem chars_arr (elems : List Json) : chars (arr elems) = '[' :: [','].intercalate (elems.map chars) ++ [']'] := by
  have helems : ∀ elems : List Json, (dumpsCompactElems elems).map String.toList = elems.map chars := by
    intro elems
    induction elems with
    | nil => rfl
    | cons j elems ih => rw [dumpsCompactElems, List.map_cons, ih, List.map_cons, chars]
  rw [chars, dumpsCompact, String.toList_append, String.toList_append, String.toList_intercalate, helems]
  rfl

/-- The text of an item. -/
def itemChars (e : String × Json) : List Char :=
  '"' :: (e.1.toList.flatMap fun c => (dumpsChar c).toList) ++ '"' :: ':' :: chars e.2

theorem chars_obj (items : List (String × Json)) :
    chars (obj items) = '\x7b' :: [','].intercalate (items.map itemChars) ++ ['\x7d'] := by
  have hitems : ∀ items : List (String × Json), (dumpsCompactItems items).map String.toList = items.map itemChars := by
    intro items
    induction items with
    | nil => rfl
    | cons e items ih =>
      have hcolon : ":".toList = [':'] := rfl
      rw [dumpsCompactItems, List.map_cons, ih, List.map_cons, String.toList_append, String.toList_append,
        toList_dumpsStr, hcolon, itemChars, chars]
      simp
  rw [chars, dumpsCompact, String.toList_append, String.toList_append, String.toList_intercalate, hitems]
  rfl

theorem chars_str (t : String) : chars (str t) = '"' :: (t.toList.flatMap fun c => (dumpsChar c).toList) ++ ['"'] := by
  rw [chars, dumpsCompact, dumps, toList_dumpsStr]
  all_goals simp

theorem chars_int (ht : Decimal.toText n = some t) : chars (int n) = t := by
  rw [chars, dumpsCompact, dumps, toList_toString ht]
  all_goals simp

theorem readWord_toText (ht : Decimal.toText n = some t) (rest : List Char) :
    readWord (t ++ rest) = none := by
  obtain ⟨c, cs, hdigits, hc⟩ : ∃ c cs, Nat.toDigits 10 n.natAbs = c :: cs ∧ c.isDigit = true := by
    cases hd : Nat.toDigits 10 n.natAbs with
    | nil => exact (Nat.toDigits_ne_nil hd).elim
    | cons c cs => exact ⟨c, cs, rfl, Decimal.isDigit_toDigits (hd ▸ List.mem_cons_self)⟩
  have hne : ∀ w ∈ ['n', 't', 'f', 'N', 'I', '-'], w ≠ c := by
    intro w hw
    rintro rfl
    revert hc
    simp only [List.mem_cons, List.not_mem_nil, or_false] at hw
    obtain rfl | rfl | rfl | rfl | rfl | rfl := hw <;> decide
  simp only [List.forall_mem_cons, List.not_mem_nil, false_imp_iff, implies_true, and_true] at hne
  cases n with
  | ofNat n =>
    have heq : t = c :: cs := by
      simp only [Decimal.toText, Decimal.natToText, Option.ite_none_right_eq_some] at ht
      rw [← Option.some.inj ht.2]
      exact hdigits
    simp [heq, readWord, words, hne]
  | negSucc n =>
    have heq : t = '-' :: c :: cs := by
      simp only [Decimal.toText, Decimal.natToText, Option.map_eq_some_iff, Option.ite_none_right_eq_some] at ht
      obtain ⟨digits, ⟨-, heq⟩, rfl⟩ := ht
      rw [← Option.some.inj heq]
      exact congrArg _ hdigits
    simp [heq, readWord, words, hne]

theorem chars_head {j : Json} (hj : j.Readable) :
    ∃ c s, chars j = c :: s ∧ isJsonSpace c = false ∧ c ≠ ']' ∧ c ≠ '\x7d' ∧ c ≠ '\ufeff' := by
  cases j with
  | null => exact ⟨'n', _, rfl, by decide⟩
  | bool b =>
    cases b with
    | false => exact ⟨'f', _, rfl, by decide⟩
    | true => exact ⟨'t', _, rfl, by decide⟩
  | int n =>
    obtain ⟨t, ht⟩ := Option.isSome_iff_exists.1 hj
    rw [chars_int ht]
    cases t with
    | nil =>
      have hread := Decimal.ofText_toText ht
      have hnone : Decimal.ofText [] = none := by decide
      rw [hnone] at hread
      cases hread
    | cons c s =>
      have hbounds := Decimal.bounds_of_mem_toText ht List.mem_cons_self
      refine ⟨c, s, rfl, ?_, ?_, ?_, ?_⟩
      · simp only [isJsonSpace, Bool.or_eq_false_iff, beq_eq_false_iff_ne]
        refine ⟨⟨⟨?_, ?_⟩, ?_⟩, ?_⟩ <;> (rintro rfl; exact absurd hbounds (by decide))
      · rintro rfl
        exact absurd hbounds (by decide)
      · rintro rfl
        exact absurd hbounds (by decide)
      · rintro rfl
        exact absurd hbounds (by decide)
  | float r => exact hj.elim
  | str t => exact ⟨'"', _, chars_str t, by decide⟩
  | arr elems => exact ⟨'[', _, chars_arr elems, by decide⟩
  | obj items => exact ⟨'\x7b', _, chars_obj items, by decide⟩

theorem skip_cons (hc : isJsonSpace c = false) (s : List Char) : skip (c :: s) = c :: s := by
  rw [skip, List.dropWhile_cons, hc, if_neg Bool.false_ne_true]

theorem intercalate_head {s : List Char} {l : List (List Char)} : ∃ t, [','].intercalate ((c :: s) :: l) = c :: t := by
  cases l with
  | nil => exact ⟨s, by simp⟩
  | cons a l => exact ⟨_, List.intercalate_cons_of_ne_nil (List.cons_ne_nil a l)⟩

theorem readValue_arr (float : List Char → String) (n : ℕ) (hc : isJsonSpace c = false) (hne : c ≠ ']')
    (s : List Char) : readValue float (n + 1) ('[' :: c :: s) =
      (readElems float n (c :: s)).map fun p => (.arr p.1, p.2) := by
  rw [readValue]
  simp only [skip_cons hc]
  split
  · rename_i heq
    cases heq
    exact (hne rfl).elim
  · rfl

theorem readValue_obj (float : List Char → String) (n : ℕ) (s : List Char) :
    readValue float (n + 1) ('\x7b' :: '"' :: s) =
      (readItems float n ('"' :: s)).map fun p => (.obj (p.1.foldl (fun items e => set e.1 e.2 items) []), p.2) := by
  rw [readValue]
  rfl

theorem set_of_not_mem {k : String} {v : Json} (h : k ∉ items.map Prod.fst) :
    set k v items = items ++ [(k, v)] := by
  induction items with
  | nil => rfl
  | cons e items ih =>
    rw [List.map_cons, List.mem_cons, not_or] at h
    rw [set, if_neg (Ne.symm h.1), ih h.2, List.cons_append]

theorem foldl_set (front : List (String × Json)) (h : ((front ++ items).map Prod.fst).Nodup) :
    items.foldl (fun d e => set e.1 e.2 d) front = front ++ items := by
  induction items generalizing front with
  | nil => simp
  | cons e items ih =>
    have hnew : e.1 ∉ front.map Prod.fst := by
      rw [List.map_append, List.nodup_append] at h
      exact fun hmem => h.2.2 _ hmem _ List.mem_cons_self rfl
    rw [List.foldl_cons, set_of_not_mem hnew, ih _ (by simpa using h)]
    simp

theorem readValue_number (float : List Char → String) (n : ℕ) (hc : 45 ≤ c.toNat ∧ c.toNat ≤ 57)
    (s : List Char) : readValue float (n + 1) (c :: s) = (readWord (c :: s)).or (readNumber float (c :: s)) := by
  rw [readValue]
  all_goals
    rintro s heq
    cases heq
    exact absurd hc (by decide)

theorem readValue_int (float : List Char → String) {i : ℤ} (ht : Decimal.toText i = some t) (n : ℕ)
    (hrest : Ends rest) : readValue float (n + 1) (t ++ rest) = some (.int i, rest) := by
  have hword := readWord_toText ht rest
  have hnumber := readNumber_toText float ht hrest
  cases t with
  | nil =>
    have hread := Decimal.ofText_toText ht
    have hnone : Decimal.ofText [] = none := by decide
    rw [hnone] at hread
    cases hread
  | cons c s =>
    rw [List.cons_append] at hword hnumber ⊢
    rw [readValue_number float n (Decimal.bounds_of_mem_toText ht List.mem_cons_self), hword, hnumber, Option.none_or]

theorem readItems_item (float : List Char → String) (n : ℕ) (k : String) {v : Json} (hv : v.Readable)
    (hread : readValue float n (chars v ++ rest) = some (v, rest)) :
    readItems float (n + 1) (itemChars (k, v) ++ rest) =
      match skip rest with
      | ',' :: s => (readItems float n (skip s)).map fun q => ((k, v) :: q.1, q.2)
      | '\x7d' :: s => some ([(k, v)], s)
      | _ => none := by
  obtain ⟨c, s, hhead, hspace, -, -⟩ := chars_head hv
  have htext : itemChars (k, v) ++ rest =
      '"' :: ((k.toList.flatMap fun c => (dumpsChar c).toList) ++ '"' :: ':' :: (chars v ++ rest)) := by
    simp [itemChars]
  have hskip : skip (chars v ++ rest) = chars v ++ rest := by rw [hhead, List.cons_append, skip_cons hspace]
  rw [htext, readItems, readString_dumpsStr, Option.bind_some]
  simp only [skip_cons (show isJsonSpace ':' = false by decide), hskip, hread, Option.bind_some]

mutual

/-- **A value that is written is read.** -/
theorem readValue_chars (float : List Char → String) (j : Json) (hj : j.Readable) {n : ℕ} (hn : (chars j).length ≤ n)
    {rest : List Char} (hrest : Ends rest) : readValue float n (chars j ++ rest) = some (j, rest) := by
  obtain ⟨c, s, hhead, hspace, -, -⟩ := chars_head hj
  obtain ⟨n, rfl⟩ : ∃ m, n = m + 1 := Nat.exists_eq_succ_of_ne_zero (by
    rw [hhead, List.length_cons] at hn
    omega)
  match j with
  | .null => rfl
  | .bool true => rfl
  | .bool false => rfl
  | .float r => exact hj.elim
  | .int i =>
    obtain ⟨t, ht⟩ := Option.isSome_iff_exists.1 hj
    rw [chars_int ht]
    exact readValue_int float ht n hrest
  | .str t =>
    have htext : chars (str t) ++ rest = '"' :: ((t.toList.flatMap fun c => (dumpsChar c).toList) ++ '"' :: rest) := by
      rw [chars_str]
      simp
    rw [htext, readValue, readString_dumpsStr, Option.map_some]
  | .arr [] =>
    rw [chars_arr]
    rfl
  | .arr (j :: elems) =>
    have helems : ReadableElems (j :: elems) := hj
    obtain ⟨c, s, hhead, hspace, hne, -, -⟩ := chars_head helems.1
    obtain ⟨t, ht⟩ := intercalate_head (c := c) (s := s) (l := elems.map chars)
    have hread := readElems_chars float (j :: elems) (List.cons_ne_nil j elems) helems n rest (by
      rw [chars_arr] at hn
      simp only [List.length_append, List.length_cons, List.length_nil] at hn
      omega)
    rw [List.map_cons, hhead, ht, List.cons_append] at hread
    rw [chars_arr, List.map_cons, hhead, ht, List.append_assoc, List.cons_append, List.cons_append,
      readValue_arr float n hspace hne, List.singleton_append, hread, Option.map_some]
  | .obj [] =>
    rw [chars_obj]
    rfl
  | .obj (e :: items) =>
    obtain ⟨hnodup, hitems⟩ : ((e :: items).map Prod.fst).Nodup ∧ ReadableItems (e :: items) := hj
    obtain ⟨t, ht⟩ := intercalate_head (c := '"')
      (s := (e.1.toList.flatMap fun c => (dumpsChar c).toList) ++ '"' :: ':' :: chars e.2) (l := items.map itemChars)
    have hread := readItems_chars float (e :: items) (List.cons_ne_nil e items) hitems n rest (by
      rw [chars_obj] at hn
      simp only [List.length_append, List.length_cons, List.length_nil] at hn
      omega)
    have hhead : itemChars e = '"' :: ((e.1.toList.flatMap fun c => (dumpsChar c).toList) ++ '"' :: ':' :: chars e.2) :=
      rfl
    rw [List.map_cons, hhead, ht, List.cons_append] at hread
    rw [chars_obj, List.map_cons, hhead, ht, List.append_assoc, List.cons_append, List.cons_append,
      readValue_obj, List.singleton_append, hread, Option.map_some]
    simp only
    rw [foldl_set [] hnodup, List.nil_append]

theorem readElems_chars (float : List Char → String) (elems : List Json) (hne : elems ≠ []) (helems : ReadableElems elems)
    (n : ℕ) (rest : List Char) (hn : ([','].intercalate (elems.map chars)).length + 1 ≤ n) :
    readElems float n ([','].intercalate (elems.map chars) ++ ']' :: rest) = some (elems, rest) := by
  obtain ⟨n, rfl⟩ : ∃ m, n = m + 1 := Nat.exists_eq_succ_of_ne_zero (by omega)
  match elems with
  | [j] =>
    rw [List.map_singleton, List.intercalate_singleton] at hn ⊢
    rw [readElems, readValue_chars float j helems.1 (by omega) (by rintro c ⟨⟩; simp)]
    rfl
  | j :: j' :: elems =>
    obtain ⟨hj, helems⟩ : j.Readable ∧ ReadableElems (j' :: elems) := helems
    obtain ⟨c, s, hhead, hspace, -, -⟩ := chars_head helems.1
    obtain ⟨t, ht⟩ := intercalate_head (c := c) (s := s) (l := elems.map chars)
    rw [List.map_cons, List.intercalate_cons_of_ne_nil (by simp)] at hn ⊢
    simp only [List.length_append, List.length_cons, List.length_nil] at hn
    have hread := readElems_chars float (j' :: elems) (List.cons_ne_nil j' elems) helems n rest (by omega)
    have htail : skip ([','].intercalate ((j' :: elems).map chars) ++ ']' :: rest) =
        [','].intercalate ((j' :: elems).map chars) ++ ']' :: rest := by
      rw [List.map_cons, hhead, ht, List.cons_append, skip_cons hspace]
    rw [List.append_assoc, List.append_assoc, List.singleton_append, readElems,
      readValue_chars float j hj (by omega) (by rintro c ⟨⟩; simp), Option.bind_some, skip_cons (by decide)]
    simp only [htail, hread, Option.map_some]

theorem readItems_chars (float : List Char → String) (items : List (String × Json)) (hne : items ≠ [])
    (hitems : ReadableItems items) (n : ℕ) (rest : List Char)
    (hn : ([','].intercalate (items.map itemChars)).length + 1 ≤ n) :
    readItems float n ([','].intercalate (items.map itemChars) ++ '\x7d' :: rest) = some (items, rest) := by
  obtain ⟨n, rfl⟩ : ∃ m, n = m + 1 := Nat.exists_eq_succ_of_ne_zero (by omega)
  match items with
  | [(k, v)] =>
    have hlen : (itemChars (k, v)).length = (k.toList.flatMap fun c => (dumpsChar c).toList).length +
        (chars v).length + 3 := by
      simp only [itemChars, List.length_append, List.length_cons]
      omega
    rw [List.map_singleton, List.intercalate_singleton] at hn ⊢
    rw [readItems_item float n k hitems.1 (readValue_chars float v hitems.1 (by omega) (by rintro c ⟨⟩; simp))]
    rfl
  | (k, v) :: e :: items =>
    obtain ⟨hv, hitems⟩ : v.Readable ∧ ReadableItems (e :: items) := hitems
    have hlen : (itemChars (k, v)).length = (k.toList.flatMap fun c => (dumpsChar c).toList).length +
        (chars v).length + 3 := by
      simp only [itemChars, List.length_append, List.length_cons]
      omega
    rw [List.map_cons, List.intercalate_cons_of_ne_nil (by simp)] at hn ⊢
    simp only [List.length_append, List.length_cons, List.length_nil] at hn
    have hread := readItems_chars float (e :: items) (List.cons_ne_nil e items) hitems n rest (by omega)
    obtain ⟨t, ht⟩ := intercalate_head (c := '"')
      (s := (e.1.toList.flatMap fun c => (dumpsChar c).toList) ++ '"' :: ':' :: chars e.2) (l := items.map itemChars)
    have hhead : itemChars e = '"' :: ((e.1.toList.flatMap fun c => (dumpsChar c).toList) ++ '"' :: ':' :: chars e.2) :=
      rfl
    have htail : skip ([','].intercalate ((e :: items).map itemChars) ++ '\x7d' :: rest) =
        [','].intercalate ((e :: items).map itemChars) ++ '\x7d' :: rest := by
      rw [List.map_cons, hhead, ht, List.cons_append, skip_cons (by decide)]
    rw [List.append_assoc, List.append_assoc, List.singleton_append,
      readItems_item float n k hv (readValue_chars float v hv (by omega) (by rintro c ⟨⟩; simp)), skip_cons (by decide)]
    simp only [htail, hread, Option.map_some]

end

/-! ## Sorted keys -/

theorem sortKeysElems_eq (elems : List Json) : sortKeysElems elems = elems.map sortKeys := by
  induction elems with
  | nil => rfl
  | cons j elems ih => rw [sortKeysElems, ih, List.map_cons]

theorem sortKeysItems_eq (items : List (String × Json)) :
    sortKeysItems items = items.map fun e => (e.1, sortKeys e.2) := by
  induction items with
  | nil => rfl
  | cons e items ih => rw [sortKeysItems, ih, List.map_cons]

theorem keys_sortKeysItems (items : List (String × Json)) : (sortKeysItems items).map Prod.fst = items.map Prod.fst := by
  induction items with
  | nil => rfl
  | cons e items ih => rw [sortKeysItems, List.map_cons, List.map_cons, ih]

theorem lookup_sortKeysItems (hnodup : (items.map Prod.fst).Nodup) (k : String) :
    lookup k ((sortKeysItems items).insertionSort fun a b => a.1 ≤ b.1) = (lookup k items).map sortKeys := by
  have hkeys : ((sortKeysItems items).map Prod.fst).Nodup := by rwa [keys_sortKeysItems]
  rw [← lookup_perm ((sortKeysItems items).perm_insertionSort fun a b => a.1 ≤ b.1).symm hkeys]
  clear hnodup hkeys
  induction items with
  | nil => rfl
  | cons e items ih =>
    rw [sortKeysItems, lookup, lookup, ih]
    split_ifs <;> rfl

mutual

theorem readable_sortKeys (j : Json) (hj : j.Readable) : (sortKeys j).Readable := by
  match j with
  | .null => exact hj
  | .bool b => exact hj
  | .int n => exact hj
  | .float r => exact hj
  | .str t => exact hj
  | .arr elems => exact readable_sortKeysElems elems hj
  | .obj items =>
    obtain ⟨hnodup, hitems⟩ : (items.map Prod.fst).Nodup ∧ ReadableItems items := hj
    have hperm := (sortKeysItems items).perm_insertionSort fun a b => a.1 ≤ b.1
    refine ⟨?_, readableItems_iff.2 fun e he => ?_⟩
    · rw [(hperm.map Prod.fst).nodup_iff, keys_sortKeysItems]
      exact hnodup
    · exact readableItems_iff.1 (readable_sortKeysItems items hitems) e (hperm.mem_iff.1 he)

theorem readable_sortKeysElems (elems : List Json) (helems : ReadableElems elems) :
    ReadableElems (sortKeysElems elems) := by
  match elems with
  | [] => trivial
  | j :: elems => exact ⟨readable_sortKeys j helems.1, readable_sortKeysElems elems helems.2⟩

theorem readable_sortKeysItems (items : List (String × Json)) (hitems : ReadableItems items) :
    ReadableItems (sortKeysItems items) := by
  match items with
  | [] => trivial
  | (k, v) :: items => exact ⟨readable_sortKeys v hitems.1, readable_sortKeysItems items hitems.2⟩

end

theorem writableElems_iff {elems : List Json} : writableElems elems = true ↔ ∀ j ∈ elems, j.writable = true := by
  induction elems with
  | nil => simp [writableElems]
  | cons j elems ih => rw [writableElems, Bool.and_eq_true, ih, List.forall_mem_cons]

theorem writableItems_iff :
    writableItems items = true ↔ ∀ e ∈ items, e.2.writable = true := by
  induction items with
  | nil => simp [writableItems]
  | cons e items ih => rw [writableItems, Bool.and_eq_true, ih, List.forall_mem_cons]

mutual

theorem writable_of_readable (j : Json) (hj : j.Readable) : j.writable = true := by
  match j with
  | .null => rfl
  | .bool b => rfl
  | .int n => exact hj
  | .float r => rfl
  | .str t => rfl
  | .arr elems => exact writableElems_of_readable elems hj
  | .obj items => exact writableItems_of_readable items hj.2

theorem writableElems_of_readable (elems : List Json) (helems : ReadableElems elems) :
    writableElems elems = true := by
  match elems with
  | [] => rfl
  | j :: elems =>
    rw [writableElems, writable_of_readable j helems.1, writableElems_of_readable elems helems.2, Bool.and_self]

theorem writableItems_of_readable (items : List (String × Json)) (hitems : ReadableItems items) :
    writableItems items = true := by
  match items with
  | [] => rfl
  | (k, v) :: items =>
    rw [writableItems, writable_of_readable v hitems.1, writableItems_of_readable items hitems.2, Bool.and_self]

end

/-- **What is written is read**, with its keys sorted. -/
theorem loads_canonical (float : List Char → String) {j : Json} (hj : j.Readable) :
    (canonical j).bind (loads float) = some (sortKeys j) := by
  have hsorted := readable_sortKeys j hj
  obtain ⟨c, s, hhead, hspace, -, -, hmark⟩ := chars_head hsorted
  have hread : readValue float ((chars (sortKeys j)).length + 1) (chars (sortKeys j) ++ []) = some (sortKeys j, []) :=
    readValue_chars float (sortKeys j) hsorted (Nat.le_succ _) (by rintro c ⟨⟩)
  rw [List.append_nil] at hread
  have hbom : (chars (sortKeys j)).head? ≠ some '\ufeff' := by
    rw [hhead, List.head?_cons, Ne, Option.some.injEq]
    exact hmark
  have hskip : skip (chars (sortKeys j)) = chars (sortKeys j) := by rw [hhead, skip_cons hspace]
  rw [canonical, if_pos (writable_of_readable j hj), Option.bind_some]
  change loads float (chars (sortKeys j)) = _
  rw [loads, if_neg hbom, hskip, hread]
  rfl

end LlmGateway.Json
