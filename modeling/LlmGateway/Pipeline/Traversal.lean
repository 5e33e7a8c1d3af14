import LlmGateway.Foundations.Decimal
import LlmGateway.Pipeline.MapOutputs
import LlmGateway.Pipeline.Resolver

/-!
# Paths through values

`traverse_path` on Python's values: through dictionaries by key, through the outputs of a map step by index, key or
wildcard, and through all other objects by attribute. On a path without brackets a wildcard stands for the list of what
the rest of the path leads to from each output. On a path with a bracket another loop does the work, where a wildcard
gives the list of the outputs itself, and the rest of the path is looked for in that list
(`traversePath_wildcard_iff`).
-/

namespace LlmGateway.Pipeline

open MapReduce (MapOutputCollection)

/-! ## Values -/

/-- What a value is for the traversal. -/
inductive View (V : Type)
  | collection (outputs : MapOutputCollection V)
  /-- A dictionary, with what it has under a value that can be a key. -/
  | dict (entry : V → Option V)
  | other

/-- Python's values. -/
structure Objects (V : Type) where
  view : V → View V
  ofCollection : MapOutputCollection V → V
  ofList : List V → V
  ofString : String → V
  /-- `getattr`, where `hasattr`. -/
  getattr : V → String → Option V

namespace Objects

variable {V : Type}

/-- What attributes lead to from a list. -/
inductive FromList (o : Objects V) : V → Prop
  | list (l : List V) : FromList o (o.ofList l)
  | getattr {v w : V} {name : String} (hv : FromList o v) (hw : o.getattr v name = some w) : FromList o w

/-- What holds of Python's values. A list and its methods, their classes, texts and so on are neither dictionaries nor
outputs of a map, and none of their attributes has a bracket in its name. -/
structure Lawful (o : Objects V) : Prop where
  view_ofCollection : ∀ outputs, o.view (o.ofCollection outputs) = .collection outputs
  view_fromList : ∀ v, o.FromList v → o.view v = .other
  getattr_fromList : ∀ v name, o.FromList v → '[' ∈ name.toList → o.getattr v name = none

/-! ## Parts of paths -/

/-- The runs of the characters beyond the decimal digits for which `isdigit` holds: superscripts, subscripts, numbers in
circles and so on. -/
def otherDigits : List (ℕ × ℕ) :=
  [(0xb2, 0xb3), (0xb9, 0xb9), (0x1369, 0x1371), (0x19da, 0x19da), (0x2070, 0x2070), (0x2074, 0x2079),
    (0x2080, 0x2089), (0x2460, 0x2468), (0x2474, 0x247c), (0x2488, 0x2490), (0x24ea, 0x24ea), (0x24f5, 0x24fd),
    (0x24ff, 0x24ff), (0x2776, 0x277e), (0x2780, 0x2788), (0x278a, 0x2792), (0x10a40, 0x10a43), (0x10e60, 0x10e68),
    (0x11052, 0x1105a), (0x1f100, 0x1f10a)]

def isdigit (part : List Char) : Bool :=
  !part.isEmpty && part.all fun c =>
    (Decimal.zeros.any fun z => z ≤ c.toNat && c.toNat < z + 10) ||
      otherDigits.any fun run => run.1 ≤ c.toNat && c.toNat ≤ run.2

/-- The part of a path is an index: `part.isdigit() or (part.startswith("-") and part[1:].isdigit())`. -/
def isIndex (part : List Char) : Bool := isdigit part || (part.head? = some '-' && isdigit part.tail)

/-- An output by its index or its key, unless it raises. -/
def outputAt (outputs : MapOutputCollection V) (part : String) : Option V :=
  if isIndex part.toList then (Decimal.ofText part.toList).bind outputs.getOutput else outputs.getOutputByKey part

variable (o : Objects V)

/-- A step through a value other than a wildcard, unless it raises. -/
def step (value : V) (part : String) : Option V :=
  match o.view value with
  | .collection outputs => outputAt outputs part
  | .dict entry => entry (o.ofString part)
  | .other => o.getattr value part

/-- `_navigate_single_part`, unless it raises. -/
def navigateSinglePart (value : V) (part : String) : Option V :=
  match o.view value with
  | .collection outputs => if part = "*" then some (o.ofList outputs.outputs) else outputAt outputs part
  | _ => o.step value part

/-- `key in value` and `value[key]`, unless one of them raises. -/
def lookup (value key : V) : Option V :=
  match o.view value with
  | .dict entry => entry key
  | _ => none

/-- The loop of `traverse_path` over the parts of a path without brackets. Where a wildcard ends it, the rest of the
path, which the loop puts together again, is empty: there is no part left, or an empty one. -/
def navigateParts (value : V) : List (List Char) → Option V
  | [] => some value
  | part :: parts =>
    match o.view value with
    | .collection outputs =>
      if part = ['*'] then
        if parts = [] ∨ parts = [[]] then some (o.ofList outputs.outputs)
        else (outputs.outputs.mapM fun output => navigateParts output parts).map o.ofList
      else (outputAt outputs (String.ofList part)).bind fun value => navigateParts value parts
    | _ => (o.step value (String.ofList part)).bind fun value => navigateParts value parts

/-- What a step sees when it runs, of these values. -/
def context (source options : V) (mapState : Option V) (outputs : String → Option V) : Context V where
  source := source
  options := options
  mapState := mapState
  outputs := outputs
  navigatePart := o.navigateSinglePart
  navigate root path := o.navigateParts root (path.toList.splitOn '.')
  lookup := o.lookup

variable {o} {source options : V} {mapState : Option V} {stepOutputs : String → Option V}

/-! ## Paths without brackets -/

theorem splitOn_eq_singleton_nil_iff {path : List Char} : path.splitOn '.' = [[]] ↔ path = [] := by
  constructor
  · intro h
    have hjoin : ['.'].intercalate (path.splitOn '.') = path := List.intercalate_splitOn '.'
    rw [h] at hjoin
    exact hjoin.symm
  · rintro rfl
    exact List.splitOn_nil '.'

theorem plainPath_eq {value : V} {path : String} (hne : path ≠ "") :
    (o.context source options mapState stepOutputs).plainPath value path =
      o.navigateParts value (path.toList.splitOn '.') :=
  if_neg hne

theorem plainPath_wildcard {value : V} {outputs : MapOutputCollection V} (hview : o.view value = .collection outputs)
    (path : String) :
    (o.context source options mapState stepOutputs).plainPath value ("*." ++ path) =
      (outputs.outputs.mapM fun output =>
        (o.context source options mapState stepOutputs).plainPath output path).map o.ofList := by
  have hparts : ("*." ++ path).toList.splitOn '.' = ['*'] :: path.toList.splitOn '.' := by
    rw [String.toList_append]
    exact List.splitOn_append_cons_self ['*'] path.toList
  have hne : "*." ++ path ≠ "" := by
    intro h
    have hlength := congrArg String.length h
    rw [String.length_append] at hlength
    exact absurd hlength (by simp)
  rw [plainPath_eq hne, hparts, navigateParts, hview]
  simp only [if_true]
  by_cases hpath : path = ""
  · -- nothing behind the wildcard: the outputs themselves
    subst hpath
    rw [if_pos (.inr (splitOn_eq_singleton_nil_iff.2 rfl))]
    have hsame : (fun output => (o.context source options mapState stepOutputs).plainPath output "") = some :=
      funext fun output => if_pos rfl
    have hall : outputs.outputs.mapM (some : V → Option V) = some (outputs.outputs.map id) := List.mapM_pure
    rw [hsame, hall, List.map_id]
    rfl
  · rw [if_neg]
    · simp only [plainPath_eq hpath]
    · rintro (hnil | hsingle)
      · exact List.splitOn_ne_nil _ _ hnil
      · exact hpath (String.toList_eq_nil_iff.1 (splitOn_eq_singleton_nil_iff.1 hsingle))

/-! ## Paths with brackets -/

/-- A bracket is in the part. -/
def Bracketed (part : PathPart) : Prop := part.dynamicKey ≠ none ∨ '[' ∈ part.base.toList

theorem drop_takeWhile (p : Char → Bool) (l : List Char) : l.drop (l.takeWhile p).length = l.dropWhile p := by
  have happend : l.takeWhile p ++ l.dropWhile p = l := List.takeWhile_append_dropWhile
  calc l.drop (l.takeWhile p).length = (l.takeWhile p ++ l.dropWhile p).drop (l.takeWhile p).length := by rw [happend]
    _ = l.dropWhile p := List.drop_left

theorem exists_bracketed {fuel : ℕ} {remaining : List Char} (hfuel : remaining.length ≤ fuel)
    (hmem : '[' ∈ remaining) : ∃ part ∈ pathParts fuel remaining, Bracketed part := by
  induction fuel generalizing remaining with
  | zero =>
    rw [List.length_eq_zero_iff.1 (Nat.le_zero.1 hfuel)] at hmem
    cases hmem
  | succ fuel ih =>
    rw [pathParts]
    cases hmatch : matchDynamicKey remaining with
    | some found =>
      obtain ⟨part, rest⟩ := found
      obtain ⟨-, key, hkey, -⟩ := matchDynamicKey_eq_some hmatch
      exact ⟨part, List.mem_cons_self, .inl (by rw [hkey]; exact Option.some_ne_none _)⟩
    | none =>
      simp only
      by_cases hpart : '[' ∈ remaining.takeWhile (· != '.')
      · refine ⟨⟨String.ofList (remaining.takeWhile (· != '.')), none⟩, List.mem_append_left _ ?_, .inr ?_⟩
        · rw [plainPart, if_neg (List.ne_nil_of_mem hpart)]
          exact List.mem_singleton_self _
        · rwa [String.toList_ofList]
      · -- the bracket is behind the dot
        have hrest : '[' ∈ (remaining.drop (remaining.takeWhile (· != '.')).length).tail := by
          rw [← List.takeWhile_append_dropWhile (p := (· != '.')) (l := remaining)] at hmem
          have hmem := (List.mem_append.1 hmem).resolve_left hpart
          rw [drop_takeWhile]
          cases hdot : remaining.dropWhile (· != '.') with
          | nil =>
            rw [hdot] at hmem
            cases hmem
          | cons c rest =>
            have hc := List.head?_dropWhile_not (· != '.') remaining
            rw [hdot] at hmem hc
            obtain rfl | hmem := List.mem_cons.1 hmem
            · exact absurd hc (by simp)
            · exact hmem
        have hlt := length_behindPart_lt (List.ne_nil_of_mem hmem) (remaining.takeWhile (· != '.'))
        obtain ⟨part, hin, hpart⟩ := ih (by omega) hrest
        exact ⟨part, List.mem_append_right _ hin, hpart⟩

section Lists

variable (h : o.Lawful) {v : V}
include h

theorem navigateSinglePart_fromList (hv : o.FromList v) (name : String) :
    o.navigateSinglePart v name = o.getattr v name := by
  rw [navigateSinglePart, step, h.view_fromList v hv]

theorem traversePart_fromList (hv : o.FromList v) {part : PathPart} (hpart : part.dynamicKey ≠ none) :
    (o.context source options mapState stepOutputs).traversePart v part = none := by
  obtain ⟨key, hkey⟩ := Option.ne_none_iff_exists'.1 hpart
  have hlookup : ∀ w, o.FromList w → ∀ key, o.lookup w key = none := by
    intro w hw key
    rw [lookup, h.view_fromList w hw]
  rw [Context.traversePart, hkey]
  simp only [Option.bind_eq_none_iff]
  intro w hw k _
  refine hlookup w ?_ k
  rw [Context.traverseBase] at hw
  split_ifs at hw
  · obtain rfl := Option.some.inj hw
    exact hv
  · exact .getattr hv ((navigateSinglePart_fromList h hv part.base).symm.trans hw)

theorem foldlM_fromList {parts : List PathPart} (hv : o.FromList v) (hparts : ∃ part ∈ parts, Bracketed part) :
    parts.foldlM (o.context source options mapState stepOutputs).traversePart v = none := by
  induction parts generalizing v with
  | nil =>
    obtain ⟨part, hmem, -⟩ := hparts
    cases hmem
  | cons part parts ih =>
    rw [List.foldlM_cons]
    by_cases hkey : part.dynamicKey = none
    · have hstep : (o.context source options mapState stepOutputs).traversePart v part = o.getattr v part.base := by
        rw [Context.traversePart, hkey]
        exact navigateSinglePart_fromList h hv part.base
      rw [hstep]
      cases hattr : o.getattr v part.base with
      | none => rfl
      | some w =>
        refine ih (.getattr hv hattr) ?_
        obtain ⟨bracketed, hmem, hbracketed⟩ := hparts
        obtain rfl | hmem := List.mem_cons.1 hmem
        · have hname := hbracketed.resolve_left (not_not.2 hkey)
          rw [h.getattr_fromList v _ hv hname] at hattr
          cases hattr
        · exact ⟨bracketed, hmem, hbracketed⟩
    · rw [traversePart_fromList h hv hkey]
      rfl

end Lists

theorem traversePath_wildcard_bracket (h : o.Lawful) {value : V} {outputs : MapOutputCollection V}
    (hview : o.view value = .collection outputs) {path : String} (hbracket : '[' ∈ path.toList) :
    (o.context source options mapState stepOutputs).traversePath value ("*." ++ path) = none := by
  have htext : ("*." ++ path).toList = '*' :: '.' :: path.toList := by
    rw [String.toList_append]
    rfl
  have hmatch : matchDynamicKey ('*' :: '.' :: path.toList) = none := by
    rw [matchDynamicKey]
    exact if_neg fun h => absurd (show some '.' = some '[' from h.1) (by decide)
  have hparts : parsePathWithDynamicKeys ("*." ++ path) =
      ⟨"*", none⟩ :: pathParts (path.toList.length + 1) path.toList := by
    rw [parsePathWithDynamicKeys, htext, List.length_cons, List.length_cons, pathParts, hmatch]
    rfl
  have hwildcard : (o.context source options mapState stepOutputs).traversePart value ⟨"*", none⟩ =
      some (o.ofList outputs.outputs) := by
    show o.navigateSinglePart value "*" = _
    rw [navigateSinglePart, hview]
    rfl
  rw [Context.traversePath, if_pos, hparts, List.foldlM_cons, hwildcard]
  · exact foldlM_fromList h (.list _) (exists_bracketed (Nat.le_succ _) hbracket)
  · rw [htext, List.contains_iff_mem]
    exact List.mem_cons_of_mem _ (List.mem_cons_of_mem _ hbracket)

/-- **A wildcard distributes** over the rest of the path just when that has no bracket. -/
theorem traversePath_wildcard_iff (h : o.Lawful) (source options : V) (mapState : Option V)
    (stepOutputs : String → Option V) (path : String) :
    (∀ outputs : MapOutputCollection V,
      (o.context source options mapState stepOutputs).traversePath (o.ofCollection outputs) ("*." ++ path) =
        (outputs.outputs.mapM fun output =>
          (o.context source options mapState stepOutputs).traversePath output path).map o.ofList) ↔
      '[' ∉ path.toList := by
  constructor
  · intro hall hbracket
    have hempty := hall (.new [] none none none none)
    rw [traversePath_wildcard_bracket h (h.view_ofCollection _) hbracket] at hempty
    cases hempty
  · intro hplain outputs
    have hcontains : ∀ path' : String, '[' ∉ path'.toList → ∀ value,
        (o.context source options mapState stepOutputs).traversePath value path' =
          (o.context source options mapState stepOutputs).plainPath value path' := by
      intro path' hplain value
      rw [Context.traversePath, if_neg]
      rwa [List.contains_iff_mem]
    rw [hcontains, plainPath_wildcard (h.view_ofCollection outputs)]
    · simp only [hcontains path hplain]
    · rw [String.toList_append]
      simpa using hplain

end Objects

/-! ## Some values -/

/-- Some of Python's values. The names of a list's attributes play no part in the paths below. -/
inductive PyValue
  | text (s : String)
  | dict (items : List (String × PyValue))
  | list (l : List PyValue)
  | object (attributes : List (String × PyValue))
  | collection (outputs : MapOutputCollection PyValue)

namespace PyValue

/-- The values as `Objects`. -/
def objects : Objects PyValue where
  view
    | collection outputs => .collection outputs
    | dict items => .dict fun
      | text s => items.lookup s
      | _ => none
    | _ => .other
  ofCollection := collection
  ofList := list
  ofString := text
  getattr
    | object attributes, name => attributes.lookup name
    | _, _ => none

theorem eq_list_of_fromList {v : PyValue} (h : objects.FromList v) : ∃ l, v = list l := by
  induction h with
  | list l => exact ⟨l, rfl⟩
  | getattr hv hw ih =>
    obtain ⟨l, rfl⟩ := ih
    cases hw

theorem objects_lawful : objects.Lawful where
  view_ofCollection _ := rfl
  view_fromList v hv := by
    obtain ⟨l, rfl⟩ := eq_list_of_fromList hv
    rfl
  getattr_fromList v name hv _ := by
    obtain ⟨l, rfl⟩ := eq_list_of_fromList hv
    rfl

/-- The options choose the key `a`. -/
def keyed : Context PyValue := objects.context (text "") (dict [("k", text "a")]) none fun _ => none

/-- Two outputs. -/
def outputs : MapOutputCollection PyValue :=
  .new [object [("json", dict [("m", dict [("a", text "1")])])],
    object [("json", dict [("m", dict [("a", text "2")])])]] none none none none

theorem wildcard_field :
    keyed.traversePath (collection outputs) ("*." ++ "json.m.a") =
      (outputs.outputs.mapM fun output => keyed.traversePath output "json.m.a").map list :=
  (Objects.traversePath_wildcard_iff objects_lawful (text "") (dict [("k", text "a")]) none (fun _ => none)
    "json.m.a").2 (by decide) outputs

/-- From each of the outputs the path leads to a text, and behind the wildcard it raises. -/
theorem wildcard_dynamicKey :
    (outputs.outputs.mapM fun output => keyed.traversePath output "json.m[optionsNs.k]") =
        some [text "1", text "2"] ∧
      keyed.traversePath (collection outputs) ("*." ++ "json.m[optionsNs.k]") = none ∧
      keyed.traversePath (collection outputs) ("*." ++ "json.m[optionsNs.k]") ≠
        (outputs.outputs.mapM fun output => keyed.traversePath output "json.m[optionsNs.k]").map list := by
  have helements : (outputs.outputs.mapM fun output => keyed.traversePath output "json.m[optionsNs.k]") =
      some [text "1", text "2"] := rfl
  have hwildcard : keyed.traversePath (collection outputs) ("*." ++ "json.m[optionsNs.k]") = none := rfl
  refine ⟨helements, hwildcard, ?_⟩
  rw [helements, hwildcard]
  exact nofun

end PyValue

end LlmGateway.Pipeline
