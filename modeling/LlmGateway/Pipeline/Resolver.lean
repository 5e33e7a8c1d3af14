import LlmGateway.Pipeline.StepConfig
import Mathlib.Data.List.TakeWhile

/-!
# The resolution of bindings

`NamespaceResolver.resolve` gives the root of a binding, and `traverse_path` what is behind its field path. A key in
brackets is a binding of its own, which is resolved on the way. `InputBinding.reads` are the steps whose outputs the
resolution may ask for: its value depends on no other output (`Context.resolveInput_congr`).
-/

namespace LlmGateway.Pipeline

/-! ## Paths with dynamic keys -/

structure PathPart where
  base : String
  dynamicKey : Option String
  deriving DecidableEq

/-- What `(.*)$` takes of a text. -/
def restOfLine (text : List Char) : Option (List Char) :=
  let line := text.takeWhile (· != '\n')
  -- `$` is at the end, and in front of a line feed that ends the text.
  if text.length ≤ line.length + 1 then some line else none

/-- A text without the dot in front of it. -/
def dropDot (text : List Char) : List Char := if text.head? = some '.' then text.tail else text

/-- `^([^.\[]*)\[([^\]]+)\]\.?(.*)$`: a base with a key in brackets, and the rest. -/
def matchDynamicKey (remaining : List Char) : Option (PathPart × List Char) :=
  let base := remaining.takeWhile fun c => c != '.' && c != '['
  let bracketed := remaining.drop base.length
  let key := bracketed.tail.takeWhile (· != ']')
  let closed := bracketed.tail.drop key.length
  if bracketed.head? = some '[' ∧ key ≠ [] ∧ closed.head? = some ']' then
    (restOfLine (dropDot closed.tail)).map fun rest => (⟨String.ofList base, some (String.ofList key)⟩, rest)
  else none

/-- A part up to a dot, unless it is empty. -/
def plainPart (part : List Char) : List PathPart := if part = [] then [] else [⟨String.ofList part, none⟩]

/-- The loop of `_parse_path_with_dynamic_keys`, which shortens the path each time. -/
def pathParts : ℕ → List Char → List PathPart
  | 0, _ => []
  | fuel + 1, remaining =>
    match matchDynamicKey remaining with
    | some (part, rest) => part :: pathParts fuel rest
    | none =>
      let part := remaining.takeWhile (· != '.')
      plainPart part ++ pathParts fuel (remaining.drop part.length).tail

def parsePathWithDynamicKeys (path : String) : List PathPart := pathParts path.toList.length path.toList

theorem length_restOfLine {text line : List Char} (h : restOfLine text = some line) : line.length ≤ text.length := by
  simp only [restOfLine] at h
  split_ifs at h
  obtain rfl := Option.some.inj h
  exact (List.takeWhile_prefix _).length_le

theorem length_dropDot_le (text : List Char) : (dropDot text).length ≤ text.length := by
  unfold dropDot
  split_ifs
  · rw [List.length_tail]
    exact Nat.sub_le _ _
  · exact le_rfl

variable {remaining : List Char} {key text : String} {b : InputBinding}

theorem matchDynamicKey_eq_some {rest : List Char} {part : PathPart}
    (h : matchDynamicKey remaining = some (part, rest)) :
    rest.length < remaining.length ∧ ∃ key, part.dynamicKey = some (String.ofList key) ∧ ']' ∉ key := by
  simp only [matchDynamicKey] at h
  split_ifs at h with hmatch
  obtain ⟨line, hline, heq⟩ := Option.map_eq_some_iff.1 h
  obtain ⟨rfl, rfl⟩ := Prod.mk.inj heq
  refine ⟨?_, _, rfl, fun hmem => ?_⟩
  · have hdot := Nat.le_trans (length_restOfLine hline) (length_dropDot_le _)
    have hne : remaining.drop (remaining.takeWhile fun c => c != '.' && c != '[').length ≠ [] := by
      intro hnil
      rw [hnil] at hmatch
      cases hmatch.1
    have hpos := List.length_pos_of_ne_nil hne
    rw [List.length_tail, List.length_drop, List.length_tail] at hdot
    rw [List.length_drop] at hpos hdot
    omega
  · have hclosed := List.mem_takeWhile_imp hmem
    exact absurd hclosed (by decide)

theorem pathParts_nil (fuel : ℕ) : pathParts fuel [] = [] := by
  induction fuel with
  | zero => rfl
  | succ fuel ih => exact ih

theorem length_behindPart_lt (h : remaining ≠ []) (part : List Char) :
    (remaining.drop part.length).tail.length < remaining.length := by
  have hpos := List.length_pos_of_ne_nil h
  rw [List.length_tail, List.length_drop]
  omega

theorem pathParts_of_length_le {n m : ℕ} (hn : remaining.length ≤ n)
    (hm : remaining.length ≤ m) : pathParts n remaining = pathParts m remaining := by
  induction n generalizing remaining m with
  | zero =>
    obtain rfl := List.length_eq_zero_iff.1 (Nat.le_zero.1 hn)
    rw [pathParts_nil, pathParts_nil]
  | succ n ih =>
    by_cases hnil : remaining = []
    · rw [hnil, pathParts_nil, pathParts_nil]
    · have hpos := List.length_pos_of_ne_nil hnil
      obtain ⟨m, rfl⟩ : ∃ k, m = k + 1 := ⟨m - 1, by omega⟩
      cases hmatch : matchDynamicKey remaining with
      | some found =>
        obtain ⟨part, rest⟩ := found
        have hrest := (matchDynamicKey_eq_some hmatch).1
        simp only [pathParts, hmatch]
        rw [ih (m := m) (by omega) (by omega)]
      | none =>
        have hrest := length_behindPart_lt hnil (remaining.takeWhile (· != '.'))
        simp only [pathParts, hmatch]
        rw [ih (m := m) (by omega) (by omega)]

/-- The keys in brackets on a path. -/
def dynamicKeys (path : String) : List String :=
  if path.toList.contains '[' then (parsePathWithDynamicKeys path).filterMap PathPart.dynamicKey else []

theorem not_mem_of_pathParts {fuel : ℕ} {part : PathPart}
    (h : part ∈ pathParts fuel remaining) (hkey : part.dynamicKey = some key) : ']' ∉ key.toList := by
  induction fuel generalizing remaining with
  | zero => cases h
  | succ fuel ih =>
    unfold pathParts at h
    split at h
    · rename_i first rest hmatch
      obtain rfl | h := List.mem_cons.1 h
      · obtain ⟨-, key', hkey', hclosed⟩ := matchDynamicKey_eq_some hmatch
        obtain rfl := Option.some.inj (hkey.symm.trans hkey')
        rwa [String.toList_ofList]
      · exact ih h
    · obtain h | h := List.mem_append.1 h
      · unfold plainPart at h
        split_ifs at h
        · cases h
        · obtain rfl := List.mem_singleton.1 h
          cases hkey
      · exact ih h

theorem subset_of_splitDot {rest : String} (h : (splitDot text).2 = some rest) : rest.toList ⊆ text.toList := by
  simp only [splitDot] at h
  split at h
  · cases h
  · rename_i c l hdrop
    obtain rfl := Option.some.inj h
    rw [String.toList_ofList]
    exact fun d hd => List.mem_of_mem_drop (hdrop ▸ List.mem_cons_of_mem c hd)

theorem InputBinding.parse_eq_some (h : InputBinding.parse text = some b) :
    text.toList.count '[' = text.toList.count ']' ∧ b.fieldPath.toList ⊆ text.toList := by
  unfold InputBinding.parse at h
  split at h
  · cases h
  · rename_i hcount
    refine ⟨not_not.1 hcount, ?_⟩
    obtain ⟨basePath, hbase, hb⟩ := Option.map_eq_some_iff.1 h
    have hbasePath : basePath.toList ⊆ text.toList := by
      refine List.Subset.trans (subset_of_splitDot hbase) ?_
      rw [String.toList_ofList]
      exact (List.takeWhile_prefix _).subset
    have hpath : b.fieldPath = basePath ∨ b.fieldPath = (splitDot text).2.getD "" := by
      rw [← hb]
      simp only
      split_ifs
      · exact .inr rfl
      · exact .inl rfl
      · exact .inr rfl
      · exact .inl rfl
    obtain hpath | hpath := hpath
    · rw [hpath]
      exact hbasePath
    · rw [hpath]
      cases hsplit : (splitDot text).2 with
      | none => exact List.nil_subset _
      | some rest => exact subset_of_splitDot hsplit

theorem InputBinding.plain_of_parse (h : InputBinding.parse text = some b)
    (hclosed : ']' ∉ text.toList) : '[' ∉ b.fieldPath.toList := by
  obtain ⟨hcount, hsubset⟩ := InputBinding.parse_eq_some h
  intro hmem
  have hopen := List.count_pos_iff.2 (hsubset hmem)
  rw [hcount, List.count_eq_zero_of_not_mem hclosed] at hopen
  exact absurd hopen (lt_irrefl 0)

/-! ## Values -/

/-- What a step sees when it runs, with the two ways through a value that name no step: a path without brackets, and a
key of a dictionary. -/
structure Context (V : Type) where
  source : V
  options : V
  /-- The iteration, in a map. -/
  mapState : Option V
  outputs : String → Option V
  navigatePart : V → String → Option V
  navigate : V → String → Option V
  lookup : V → V → Option V

variable {V : Type}

/-- `NamespaceResolver.resolve`, unless it raises. -/
def Context.resolve (c : Context V) (b : InputBinding) : Option V :=
  if b.ns = "sourceNs" then some c.source
  else if b.ns = "optionsNs" then some c.options
  else if b.ns = "mapNs" then c.mapState
  else b.target.step?.bind c.outputs

/-- `traverse_path`, on a path without brackets. -/
def Context.plainPath (c : Context V) (root : V) (path : String) : Option V :=
  if path = "" then some root else c.navigate root path

/-- The value of a key in brackets, whose own path has no brackets (`Context.resolveKey_eq`). -/
def Context.resolveKey (c : Context V) (key : String) : Option V :=
  (InputBinding.parse key).bind fun b => (c.resolve b).bind fun root => c.plainPath root b.fieldPath

/-- The base of a part, which may be empty. -/
def Context.traverseBase (c : Context V) (value : V) (base : String) : Option V :=
  if base = "" then some value else c.navigatePart value base

/-- One part of a path in `_traverse_with_dynamic_keys`. -/
def Context.traversePart (c : Context V) (value : V) (part : PathPart) : Option V :=
  match part.dynamicKey with
  | none => c.navigatePart value part.base
  | some key => (c.traverseBase value part.base).bind fun value => (c.resolveKey key).bind (c.lookup value)

def Context.traversePath (c : Context V) (root : V) (path : String) : Option V :=
  if path.toList.contains '[' then (parsePathWithDynamicKeys path).foldlM c.traversePart root
  else c.plainPath root path

/-- The value of a binding. -/
def Context.resolveInput (c : Context V) (b : InputBinding) : Option V :=
  (c.resolve b).bind fun root => c.traversePath root b.fieldPath

/-! ## What is read -/

/-- The namespace of a binding has a root. -/
def InputBinding.rooted (inMap : Bool) (b : InputBinding) : Bool :=
  b.ns == "sourceNs" || b.ns == "optionsNs" || (inMap && b.ns == "mapNs") || b.target.step?.isSome

/-- The steps that keys in brackets name, up to the first key that raises. -/
def keyReads (inMap : Bool) : List String → List String
  | [] => []
  | key :: keys =>
    match InputBinding.parse key with
    | none => []
    | some b => b.target.step?.toList ++ if b.rooted inMap then keyReads inMap keys else []

/-- The steps that the keys in the field path of a binding name. -/
def InputBinding.keyReads (inMap : Bool) (b : InputBinding) : List String :=
  if b.rooted inMap then Pipeline.keyReads inMap (dynamicKeys b.fieldPath) else []

/-- The steps whose outputs the resolution of a binding may ask for. -/
def InputBinding.reads (inMap : Bool) (b : InputBinding) : List String := b.target.step?.toList ++ b.keyReads inMap

/-- The same context with other outputs. -/
def Context.withOutputs (c : Context V) (outputs : String → Option V) : Context V := { c with outputs := outputs }

variable {c : Context V} {outputs : String → Option V}

theorem Context.resolve_congr (h : ∀ name, b.target.step? = some name → outputs name = c.outputs name) :
    (c.withOutputs outputs).resolve b = c.resolve b := by
  unfold Context.resolve
  split_ifs
  · rfl
  · rfl
  · rfl
  · cases hstep : b.target.step? with
    | none => rfl
    | some name => exact h name hstep

theorem Context.rooted_of_resolve (h : (c.resolve b).isSome = true) :
    b.rooted c.mapState.isSome = true := by
  unfold Context.resolve at h
  unfold InputBinding.rooted
  simp only [Bool.or_eq_true, Bool.and_eq_true, beq_iff_eq]
  split_ifs at h with hsource hoptions hmap
  · exact .inl (.inl (.inl hsource))
  · exact .inl (.inl (.inr hoptions))
  · exact .inl (.inr ⟨h, hmap⟩)
  · cases hstep : b.target.step? with
    | none =>
      rw [hstep] at h
      cases h
    | some name => exact .inr rfl

theorem Context.resolveKey_congr {keys : List String}
    (h : ∀ name ∈ Pipeline.keyReads c.mapState.isSome (key :: keys), outputs name = c.outputs name) :
    (c.withOutputs outputs).resolveKey key = c.resolveKey key := by
  unfold Context.resolveKey
  cases hparse : InputBinding.parse key with
  | none => rfl
  | some b =>
    have hresolve : (c.withOutputs outputs).resolve b = c.resolve b := by
      refine Context.resolve_congr fun name hname => h name ?_
      rw [Pipeline.keyReads, hparse]
      exact List.mem_append_left _ (Option.mem_toList.2 hname)
    rw [Option.bind_some, Option.bind_some, hresolve]
    rfl

theorem keyReads_of_resolveKey {keys : List String} (h : (c.resolveKey key).isSome = true) :
    Pipeline.keyReads c.mapState.isSome keys ⊆ Pipeline.keyReads c.mapState.isSome (key :: keys) := by
  unfold Context.resolveKey at h
  cases hparse : InputBinding.parse key with
  | none =>
    rw [hparse] at h
    cases h
  | some b =>
    rw [hparse] at h
    have hrooted : b.rooted c.mapState.isSome = true := by
      refine Context.rooted_of_resolve ?_
      cases hresolve : c.resolve b with
      | none =>
        rw [Option.bind_some, hresolve] at h
        cases h
      | some root => rfl
    rw [Pipeline.keyReads, hparse]
    simp only [hrooted, if_true]
    exact List.subset_append_right _ _

theorem Context.foldlM_traversePart_congr {parts : List PathPart} {value : V}
    (h : ∀ name ∈ Pipeline.keyReads c.mapState.isSome (parts.filterMap PathPart.dynamicKey),
      outputs name = c.outputs name) :
    parts.foldlM (c.withOutputs outputs).traversePart value = parts.foldlM c.traversePart value := by
  induction parts generalizing value with
  | nil => rfl
  | cons part parts ih =>
    rw [List.foldlM_cons, List.foldlM_cons]
    cases hkey : part.dynamicKey with
    | none =>
      rw [List.filterMap_cons, hkey] at h
      have hpart : (c.withOutputs outputs).traversePart value part = c.traversePart value part := by
        unfold Context.traversePart
        rw [hkey]
        rfl
      rw [hpart]
      exact Option.bind_congr fun v _ => ih h
    | some key =>
      rw [List.filterMap_cons, hkey] at h
      have hpart : (c.withOutputs outputs).traversePart value part = c.traversePart value part := by
        unfold Context.traversePart
        rw [hkey]
        simp only
        rw [Context.resolveKey_congr h]
        rfl
      rw [hpart]
      refine Option.bind_congr fun v hv => ih fun name hname => h name (keyReads_of_resolveKey ?_ hname)
      unfold Context.traversePart at hv
      rw [hkey] at hv
      obtain ⟨_, -, hv⟩ := Option.bind_eq_some_iff.1 hv
      obtain ⟨k, hk, -⟩ := Option.bind_eq_some_iff.1 hv
      exact Option.isSome_iff_exists.2 ⟨k, hk⟩

/-- **The value of a binding** depends on the outputs of the steps that it reads. -/
theorem Context.resolveInput_congr {b : InputBinding}
    (h : ∀ name ∈ b.reads c.mapState.isSome, outputs name = c.outputs name) :
    (c.withOutputs outputs).resolveInput b = c.resolveInput b := by
  have hresolve : (c.withOutputs outputs).resolve b = c.resolve b :=
    Context.resolve_congr fun name hname => h name (List.mem_append_left _ (Option.mem_toList.2 hname))
  unfold Context.resolveInput
  rw [hresolve]
  refine Option.bind_congr fun root hroot => ?_
  have hrooted := Context.rooted_of_resolve (Option.isSome_iff_exists.2 ⟨root, hroot⟩)
  unfold Context.traversePath
  split_ifs with hbracket
  · refine Context.foldlM_traversePart_congr fun name hname => h name (List.mem_append_right _ ?_)
    rw [InputBinding.keyReads, if_pos hrooted, dynamicKeys, if_pos hbracket]
    exact hname
  · rfl

/-- A binding to the step `split` whose path has a key in brackets, which is an option. -/
def keyedBinding : InputBinding := ⟨"step", some "split", "[optionsNs.index]", none⟩

/-- The value is `7` below every key. -/
def keyedContext : Context ℕ :=
  ⟨0, 0, none, fun name => if name = "split" then some 1 else none, fun _ _ => some 7, fun _ _ => some 2, fun _ _ => some 7⟩

theorem Context.resolveInput_congr_keyed :
    (keyedContext.withOutputs fun _ => some 1).resolveInput keyedBinding = keyedContext.resolveInput keyedBinding :=
  Context.resolveInput_congr fun name hname => by
    have hreads : keyedBinding.reads false = ["split"] := by decide
    obtain rfl := List.mem_singleton.1 (hreads ▸ hname)
    rfl

/-- A key in brackets is resolved like any other binding, as its path has none. -/
theorem Context.resolveKey_eq {path : String} (hkey : key ∈ dynamicKeys path) :
    c.resolveKey key = (InputBinding.parse key).bind c.resolveInput := by
  have hclosed : ']' ∉ key.toList := by
    unfold dynamicKeys at hkey
    split_ifs at hkey
    · obtain ⟨part, hpart, hkey⟩ := List.mem_filterMap.1 hkey
      exact not_mem_of_pathParts hpart hkey
    · cases hkey
  unfold Context.resolveKey Context.resolveInput
  refine Option.bind_congr fun b hb => Option.bind_congr fun root _ => ?_
  rw [Context.traversePath, if_neg]
  rw [List.contains_iff_mem]
  exact InputBinding.plain_of_parse hb hclosed

end LlmGateway.Pipeline
