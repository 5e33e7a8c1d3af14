import Mathlib.Data.List.Basic
import Mathlib.Data.Int.Basic

/-!
# JSON values as Python holds them

The values `json.loads` builds: integers are unbounded, a float is carried by the text `repr` prints
for it (which is what `json.dumps` prints too, but for the three values that are not numbers), and an
object is the list of its items in insertion order, its keys distinct.

Beside the readings a caller makes of a value (`get?`, `truthy`, `text`) the module has
`json.dumps` with its default settings, of which callers use the length, and with separators that have
no spaces.
-/

namespace LlmGateway

/-- A JSON value. -/
inductive Json where
  | null
  | bool (b : Bool)
  | int (n : ℤ)
  | float (repr : String)
  | str (s : String)
  | arr (elems : List Json)
  | obj (items : List (String × Json))

namespace Json

/-! ## Python strings -/

def isSpace (c : Char) : Bool :=
  let n := c.toNat
  (9 ≤ n && n ≤ 13) || (28 ≤ n && n ≤ 32) || n == 0x85 || n == 0xa0 || n == 0x1680 ||
    (0x2000 ≤ n && n ≤ 0x200a) || n == 0x2028 || n == 0x2029 || n == 0x202f || n == 0x205f ||
    n == 0x3000

def strip (s : String) : String :=
  String.ofList ((s.toList.dropWhile isSpace).reverse.dropWhile isSpace).reverse

/-- `s.lower()`, on the ASCII letters. -/
def lower (s : String) : String := String.ofList (s.toList.map Char.toLower)

theorem toLower_cases (c : Char) :
    (c.toLower = c ∧ ¬ (65 ≤ c.toNat ∧ c.toNat ≤ 90)) ∨
      ((65 ≤ c.toNat ∧ c.toNat ≤ 90) ∧ c.toLower.toNat = c.toNat + 32) := by
  have hA : 'A'.val.toNat = 65 := rfl
  have hZ : 'Z'.val.toNat = 90 := rfl
  have hgap : ('a'.val - 'A'.val).toNat = 32 := rfl
  have hval : c.toNat = c.val.toNat := rfl
  by_cases hupper : 'A'.val ≤ c.val ∧ c.val ≤ 'Z'.val
  · right
    have hbounds := hupper
    rw [UInt32.le_iff_toNat_le, UInt32.le_iff_toNat_le] at hbounds
    refine ⟨by omega, ?_⟩
    delta Char.toLower
    rw [dif_pos hupper]
    show (c.val + ('a'.val - 'A'.val)).toNat = c.val.toNat + 32
    rw [UInt32.toNat_add]
    omega
  · left
    refine ⟨?_, ?_⟩
    · delta Char.toLower
      exact dif_neg hupper
    · rw [UInt32.le_iff_toNat_le, UInt32.le_iff_toNat_le] at hupper
      omega

variable {c : Char} {items : List (String × Json)}

theorem isSpace_bounds (h : isSpace c = true) : c.toNat ≤ 32 ∨ 0x85 ≤ c.toNat := by
  simp only [isSpace, Bool.or_eq_true, Bool.and_eq_true, decide_eq_true_eq, beq_iff_eq] at h
  omega

theorem toLower_of_isSpace (h : isSpace c = true) : c.toLower = c := by
  have hbounds := isSpace_bounds h
  obtain ⟨heq, -⟩ | ⟨hupper, -⟩ := toLower_cases c
  · exact heq
  · omega

theorem isSpace_toLower (h : isSpace c = false) : isSpace c.toLower = false := by
  obtain ⟨heq, -⟩ | ⟨hupper, heq⟩ := toLower_cases c
  · rwa [heq]
  · by_contra hspace
    have hbounds := isSpace_bounds (by simpa using hspace)
    omega

theorem toLower_toLower (c : Char) : c.toLower.toLower = c.toLower := by
  obtain ⟨heq, -⟩ | ⟨hupper, heq⟩ := toLower_cases c
  · rw [heq, heq]
  · obtain ⟨heq', -⟩ | ⟨hupper', -⟩ := toLower_cases c.toLower
    · exact heq'
    · omega

/-- `s.startswith(p)`. -/
def startsWith (s p : String) : Bool := p.toList.isPrefixOf s.toList

/-- The lower-case hexadecimal numeral of `n` with `width` digits. -/
def hex (width n : ℕ) : String :=
  String.ofList ((List.range width).reverse.map fun i => Nat.digitChar ((n >>> (4 * i)) % 16))

/-! ## Reading values -/

/-- The value under `k` among the items of an object. -/
def lookup (k : String) : List (String × Json) → Option Json
  | [] => none
  | (j, v) :: items => if j = k then some v else lookup k items

/-- `d.get(k)`: `null` when the key is absent. -/
def get (items : List (String × Json)) (k : String) : Json := (lookup k items).getD .null

/-- `d[k] = v`. -/
def set (k : String) (v : Json) : List (String × Json) → List (String × Json)
  | [] => [(k, v)]
  | (j, u) :: items => if j = k then (k, v) :: items else (j, u) :: set k v items

theorem get_set (items : List (String × Json)) (k : String) (v : Json) : get (set k v items) k = v := by
  have h : lookup k (set k v items) = some v := by
    induction items with
    | nil => simp [set, lookup]
    | cons e items ih =>
      obtain ⟨j, u⟩ := e
      by_cases hj : j = k
      · simp [set, lookup, hj]
      · simp [set, lookup, hj, ih]
  rw [get, h, Option.getD_some]

theorem lookup_of_mem (hnodup : (items.map Prod.fst).Nodup) {e : String × Json}
    (he : e ∈ items) : lookup e.1 items = some e.2 := by
  induction items with
  | nil => cases he
  | cons d items ih =>
    rw [List.map_cons, List.nodup_cons] at hnodup
    rw [lookup]
    obtain rfl | he := List.mem_cons.1 he
    · rw [if_pos rfl]
    · have hne : d.1 ≠ e.1 := fun h => hnodup.1 (List.mem_map.2 ⟨e, he, h.symm⟩)
      rw [if_neg hne]
      exact ih hnodup.2 he

theorem lookup_ne_none {k : String} : lookup k items ≠ none ↔ k ∈ items.map Prod.fst := by
  induction items with
  | nil => simp [lookup]
  | cons e items ih =>
    rw [lookup, List.map_cons, List.mem_cons]
    by_cases hj : e.1 = k
    · simp [hj]
    · rw [if_neg hj, ih]
      simp [Ne.symm hj]

theorem lookup_perm {items' : List (String × Json)} (h : items.Perm items')
    (hnodup : (items.map Prod.fst).Nodup) (k : String) : lookup k items = lookup k items' := by
  by_cases hk : k ∈ items.map Prod.fst
  · obtain ⟨e, he, rfl⟩ := List.mem_map.1 hk
    rw [lookup_of_mem hnodup he, lookup_of_mem ((h.map Prod.fst).nodup_iff.1 hnodup) (h.mem_iff.1 he)]
  · have hnone : ∀ {l : List (String × Json)}, k ∉ l.map Prod.fst → lookup k l = none := fun hl =>
      Classical.byContradiction fun hne => hl (lookup_ne_none.1 hne)
    rw [hnone hk, hnone fun hk' => hk ((h.map Prod.fst).mem_iff.2 hk')]

/-- `bool(j)`. -/
def truthy : Json → Bool
  | null => false
  | bool b => b
  | int n => n != 0
  | float r => r != "0.0" && r != "-0.0"
  | str s => s != ""
  | arr elems => !elems.isEmpty
  | obj items => !items.isEmpty

/-- Whether the value is one of the given strings. -/
def isStrIn (names : List String) : Json → Bool
  | str s => names.contains s
  | _ => false

/-- `repr(s)`; characters beyond ASCII count as printable. -/
def strRepr (s : String) : String :=
  let quote := if s.toList.contains '\'' && !s.toList.contains '"' then '"' else '\''
  let body := s.toList.map fun c =>
    if c = quote || c = '\\' then String.ofList ['\\', c]
    else if c = '\n' then "\\n"
    else if c = '\r' then "\\r"
    else if c = '\t' then "\\t"
    else if c.toNat < 32 || c.toNat = 127 then "\\x" ++ hex 2 c.toNat
    else String.ofList [c]
  String.ofList [quote] ++ String.join body ++ String.ofList [quote]

mutual

/-- `repr(j)`. -/
def repr : Json → String
  | null => "None"
  | bool b => if b then "True" else "False"
  | int n => toString n
  | float r => r
  | str s => strRepr s
  | arr elems => "[" ++ ", ".intercalate (reprElems elems) ++ "]"
  | obj items => "\x7b" ++ ", ".intercalate (reprItems items) ++ "\x7d"

def reprElems : List Json → List String
  | [] => []
  | j :: elems => repr j :: reprElems elems

def reprItems : List (String × Json) → List String
  | [] => []
  | (k, v) :: items => (strRepr k ++ ": " ++ repr v) :: reprItems items

end

/-- `str(j)`. -/
def text : Json → String
  | str s => s
  | j => repr j

/-! ## `json.dumps` -/

/-- One character inside a string of `json.dumps` with `ensure_ascii`. -/
def dumpsChar (c : Char) : String :=
  let n := c.toNat
  if c = '"' then "\\\""
  else if c = '\\' then "\\\\"
  else if c = '\n' then "\\n"
  else if c = '\r' then "\\r"
  else if c = '\t' then "\\t"
  else if n = 8 then "\\b"
  else if n = 12 then "\\f"
  else if 32 ≤ n && n ≤ 126 then String.ofList [c]
  else if n < 0x10000 then "\\u" ++ hex 4 n
  -- beyond the basic plane: a surrogate pair
  else "\\u" ++ hex 4 (0xd800 + (n - 0x10000) / 0x400) ++ "\\u" ++
    hex 4 (0xdc00 + (n - 0x10000) % 0x400)

def dumpsStr (s : String) : String := "\"" ++ String.join (s.toList.map dumpsChar) ++ "\""

def dumpsFloat (r : String) : String :=
  if r = "nan" then "NaN" else if r = "inf" then "Infinity" else if r = "-inf" then "-Infinity"
  else r

mutual

/-- `json.dumps(j)`. -/
def dumps : Json → String
  | null => "null"
  | bool b => if b then "true" else "false"
  | int n => toString n
  | float r => dumpsFloat r
  | str s => dumpsStr s
  | arr elems => "[" ++ ", ".intercalate (dumpsElems elems) ++ "]"
  | obj items => "\x7b" ++ ", ".intercalate (dumpsItems items) ++ "\x7d"

def dumpsElems : List Json → List String
  | [] => []
  | j :: elems => dumps j :: dumpsElems elems

def dumpsItems : List (String × Json) → List String
  | [] => []
  | (k, v) :: items => (dumpsStr k ++ ": " ++ dumps v) :: dumpsItems items

end

mutual

/-- `json.dumps(j, separators=(",", ":"))`. -/
def dumpsCompact : Json → String
  | arr elems => "[" ++ ",".intercalate (dumpsCompactElems elems) ++ "]"
  | obj items => "\x7b" ++ ",".intercalate (dumpsCompactItems items) ++ "\x7d"
  | j => dumps j

def dumpsCompactElems : List Json → List String
  | [] => []
  | j :: elems => dumpsCompact j :: dumpsCompactElems elems

def dumpsCompactItems : List (String × Json) → List String
  | [] => []
  | (k, v) :: items => (dumpsStr k ++ ":" ++ dumpsCompact v) :: dumpsCompactItems items

end

end Json

end LlmGateway
