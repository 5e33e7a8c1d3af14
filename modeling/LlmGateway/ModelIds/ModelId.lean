import LlmGateway.Foundations.Decimal
import LlmGateway.Foundations.Lines
import Mathlib.Data.Nat.Digits.Lemmas

/-!
# Model ids

An id of a local model is `{base}[-{context}][-hybrid][-cpu]`. `parse` takes a routing prefix off, leaves an id with a
slash as it is, and takes the suffixes off any other one, each of them once and in one order. `normalized` and
`syntheticId` put them back. `apiModelId` is the name for the provider.

`contextMatch_eq_some_iff` is what the pattern for the context finds, and `normContext` what the id becomes that it is
found in: the context as `str` writes it.
-/

namespace LlmGateway.ModelIds

/-! ## Suffixes -/

/-- `s.endswith(suffix)`, and `s` without the suffix if so. -/
def cutSuffix (suffix s : List Char) : Bool × List Char :=
  if suffix <:+ s then (true, s.take (s.length - suffix.length)) else (false, s)

def cpuSuffix : List Char := ['-', 'c', 'p', 'u']

def hybridSuffix : List Char := ['-', 'h', 'y', 'b', 'r', 'i', 'd']

def mcpSuffix : List Char := ['-', 'm', 'c', 'p']

/-! ## Contexts -/

/-- `\d`. -/
def isDecimal (c : Char) : Bool := Decimal.zeros.any fun z => z ≤ c.toNat && c.toNat < z + 10

/-- What `$` stands behind: all of the text, or all but a final line break. -/
def beforeEnd (s : List Char) : List Char := if s.getLast? = some '\n' then s.dropLast else s

/-- `_CONTEXT_PATTERN.search`: what is in front of the match, and its digits. -/
def contextMatch (s : List Char) : Option (List Char × List Char) :=
  let digits := (beforeEnd s).rtakeWhile isDecimal
  let front := (beforeEnd s).rdropWhile isDecimal
  if 3 ≤ digits.length ∧ digits.length ≤ 6 ∧ front.getLast? = some '-' then some (front.dropLast, digits) else none

/-- `int(digits)`. -/
def value (digits : List Char) : ℕ := Nat.ofDigitChars 10 (digits.map Decimal.toAscii) 0

/-- `str(context)`. -/
def numeral : ℤ → List Char
  | .ofNat n => Nat.toDigits 10 n
  | .negSucc n => '-' :: Nat.toDigits 10 (n + 1)

/-! ## The id -/

inductive BackendType where
  | federated
  | cloudApi
  | cursorSdk
  | cdp
  | vps
  deriving DecidableEq

structure ModelId where
  original : List Char
  baseId : List Char
  contextLength : Option ℤ
  isCpu : Bool
  isHybrid : Bool
  backendType : Option BackendType
  provider : Option (List Char)
  routingLayer : Option (List Char)
  deriving DecidableEq

def routingPrefixes : List (List Char) := ["openrouter".toList]

/-- `text.split("/", 1)[0]`. -/
def firstSegment (text : List Char) : List Char := text.takeWhile (· ≠ '/')

/-- The routing prefix, and what is behind it. -/
def cutRouting (text : List Char) : Option (List Char) × List Char :=
  if '/' ∈ text ∧ firstSegment text ∈ routingPrefixes then
    (some (firstSegment text), text.drop ((firstSegment text).length + 1))
  else (none, text)

/-- The backend of a provider. -/
def backendOf (provider : List Char) : BackendType :=
  if provider = "cursor".toList then .cursorSdk else if provider = "cdp".toList then .cdp else .cloudApi

/-- An id without its device suffix, and without `-hybrid` behind that. -/
def cutSuffixes (s : List Char) : (Bool × Bool) × List Char :=
  let device := cutSuffix cpuSuffix s
  let hybrid := cutSuffix hybridSuffix device.2
  ((device.1, hybrid.1), hybrid.2)

/-- The id of a text with a slash, which is not taken apart further. -/
def slashId (text rest : List Char) (layer : Option (List Char)) : ModelId where
  original := text
  baseId := rest
  contextLength := none
  isCpu := false
  isHybrid := false
  backendType := some (backendOf (firstSegment rest))
  provider := some (firstSegment rest)
  routingLayer := layer

/-- The id of a text without a slash: device, hybrid and context are taken off. The routing layer is not kept. -/
def localId (text rest : List Char) : ModelId where
  original := text
  baseId := (contextMatch (cutSuffixes rest).2).elim (cutSuffixes rest).2 Prod.fst
  contextLength := (contextMatch (cutSuffixes rest).2).map fun found => (value found.2 : ℤ)
  isCpu := (cutSuffixes rest).1.1
  isHybrid := (cutSuffixes rest).1.2
  backendType := none
  provider := none
  routingLayer := none

/-- `ModelId.parse`, of a text. -/
def ModelId.parse (text : List Char) : Except String ModelId :=
  if Text.strip text = [] then .error "Model ID cannot be empty"
  else if '/' ∈ (cutRouting text).2 then .ok (slashId text (cutRouting text).2 (cutRouting text).1)
  else .ok (localId text (cutRouting text).2)

namespace ModelId

variable (m : ModelId)

/-- The base, with the context: `"-".join(parts)`. -/
def joined : List Char := m.baseId ++ m.contextLength.elim [] fun k => '-' :: numeral k

def normalized : List Char := m.joined ++ if m.isCpu then cpuSuffix else []

def syntheticId : List Char :=
  m.joined ++ (if m.isHybrid then hybridSuffix else []) ++ if m.isCpu then cpuSuffix else []

def apiModelId : List Char :=
  if m.routingLayer = some "openrouter".toList then m.baseId
  else
    match m.provider with
    | some provider =>
      if provider ≠ [] ∧ provider ++ ['/'] <+: m.baseId then
        (cutSuffix mcpSuffix (m.baseId.drop (provider.length + 1))).2
      else (cutSuffix mcpSuffix m.baseId).2
    | none => (cutSuffix mcpSuffix m.baseId).2

/-- `__eq__`, with an id. -/
def eq (o : ModelId) : Bool := m.normalized == o.normalized && m.backendType == o.backendType

/-- `__eq__`, with a text. -/
def eqText (text : List Char) : Bool :=
  match parse text with
  | .ok o => m.eq o
  | .error _ => false

/-- `__hash__`, where `hash` is that of texts. -/
def hash (hash : List Char → ℤ) : ℤ := hash m.normalized

end ModelId

/-! ## What is cut off -/

theorem cutSuffix_append (suffix s : List Char) : cutSuffix suffix (s ++ suffix) = (true, s) := by
  rw [cutSuffix, if_pos (List.suffix_append s suffix), List.length_append, Nat.add_sub_cancel, List.take_left]

variable {s text : List Char} {c : Char}

theorem cutSuffix_of_not {suffix : List Char} (h : ¬suffix <:+ s) : cutSuffix suffix s = (false, s) := if_neg h

theorem suffix_cutSuffix_iff {suffix : List Char} : suffix <:+ (cutSuffix suffix s).2 ↔ suffix ++ suffix <:+ s := by
  by_cases h : suffix <:+ s
  · obtain ⟨front, rfl⟩ := h
    rw [cutSuffix_append]
    constructor
    · rintro ⟨rest, rfl⟩
      exact ⟨rest, (List.append_assoc ..).symm⟩
    · rintro ⟨rest, hrest⟩
      rw [← List.append_assoc] at hrest
      exact ⟨rest, List.append_cancel_right hrest⟩
  · rw [cutSuffix_of_not h]
    exact iff_of_false h fun htwice => h ((List.suffix_append suffix suffix).trans htwice)

/-! ## Where the context is -/

theorem rtakeWhile_append {p : Char → Bool} {t : List Char} (hc : p c = false) (ht : ∀ d ∈ t, p d = true) :
    (s ++ c :: t).rtakeWhile p = t := by
  have hnone : (c :: s.reverse).takeWhile p = [] := List.takeWhile_cons_of_neg (by rw [hc]; exact Bool.false_ne_true)
  rw [List.rtakeWhile, List.reverse_append, List.reverse_cons, List.append_assoc, List.singleton_append,
    List.takeWhile_append_of_pos fun d hd => ht d (List.mem_reverse.1 hd), hnone, List.append_nil, List.reverse_reverse]

theorem rdropWhile_append {p : Char → Bool} {t : List Char} (hc : p c = false) (ht : ∀ d ∈ t, p d = true) :
    (s ++ c :: t).rdropWhile p = s ++ [c] := by
  have hall : (s ++ c :: t).rdropWhile p ++ (s ++ c :: t).rtakeWhile p = s ++ [c] ++ t := by
    rw [List.rdropWhile_append_rtakeWhile, List.append_assoc, List.singleton_append]
  rw [rtakeWhile_append hc ht] at hall
  exact List.append_cancel_right hall

theorem isDecimal_of_isDigit (h : c.isDigit = true) : isDecimal c = true := by
  have hbounds := Decimal.bounds_of_isDigit h
  refine List.any_eq_true.2 ⟨0x30, by decide, ?_⟩
  rw [Bool.and_eq_true, decide_eq_true_iff, decide_eq_true_iff]
  omega

theorem isDecimal_of_mem_toDigits {n : ℕ} (h : c ∈ Nat.toDigits 10 n) : isDecimal c = true :=
  isDecimal_of_isDigit (Decimal.isDigit_toDigits h)

theorem isDecimal_newline : isDecimal '\n' = false := by decide

theorem isDecimal_hyphen : isDecimal '-' = false := by decide

theorem beforeEnd_newline (s : List Char) : beforeEnd (s ++ ['\n']) = s := by
  rw [beforeEnd, if_pos List.getLast?_concat, List.dropLast_concat]

theorem contextMatch_eq_some_iff {front digits : List Char} : contextMatch s = some (front, digits) ↔
    (s = front ++ '-' :: digits ∨ s = front ++ '-' :: digits ++ ['\n']) ∧ 3 ≤ digits.length ∧ digits.length ≤ 6 ∧
      ∀ c ∈ digits, isDecimal c = true := by
  constructor
  · intro h
    simp only [contextMatch] at h
    split_ifs at h with hmatch
    obtain ⟨hge, hle, hlast⟩ := hmatch
    obtain ⟨rfl, rfl⟩ := Prod.mk.inj (Option.some.inj h)
    obtain ⟨front, hfront⟩ := List.getLast?_eq_some_iff.1 hlast
    refine ⟨?_, hge, hle, fun c hc => List.mem_rtakeWhile_imp hc⟩
    have hbody : (beforeEnd s).rdropWhile isDecimal ++ (beforeEnd s).rtakeWhile isDecimal = beforeEnd s :=
      List.rdropWhile_append_rtakeWhile
    rw [hfront, List.append_assoc, List.singleton_append] at hbody
    rw [hfront, List.dropLast_concat]
    by_cases hnl : s.getLast? = some '\n'
    · obtain ⟨body, rfl⟩ := List.getLast?_eq_some_iff.1 hnl
      right
      rw [beforeEnd_newline] at hbody ⊢
      rw [hbody]
    · left
      rw [beforeEnd, if_neg hnl] at hbody ⊢
      exact hbody.symm
  · rintro ⟨hs, hge, hle, hdigits⟩
    have hbody : beforeEnd s = front ++ '-' :: digits := by
      obtain rfl | rfl := hs
      · rw [beforeEnd, if_neg]
        intro hnl
        have hmem : '\n' ∈ digits := by
          rw [List.getLast?_append_of_ne_nil _ (List.cons_ne_nil _ _)] at hnl
          obtain ⟨body, hbody⟩ := List.getLast?_eq_some_iff.1 hnl
          cases body with
          | nil => cases hbody
          | cons c body =>
            rw [(List.cons.inj hbody).2]
            exact List.mem_append_right _ (List.mem_singleton_self _)
        have hdec := hdigits _ hmem
        rw [isDecimal_newline] at hdec
        cases hdec
      · exact beforeEnd_newline _
    rw [contextMatch, hbody, rtakeWhile_append isDecimal_hyphen hdigits, rdropWhile_append isDecimal_hyphen hdigits,
      List.dropLast_concat, if_pos ⟨hge, hle, List.getLast?_concat⟩]

/-! ## Segments -/

theorem firstSegment_append {provider : List Char} (h : '/' ∉ provider) (name : List Char) :
    firstSegment (provider ++ '/' :: name) = provider := by
  have hall : ∀ c ∈ provider, decide (c ≠ '/') = true := fun c hc => decide_eq_true (ne_of_mem_of_not_mem hc h)
  rw [firstSegment, List.takeWhile_append_of_pos hall, List.takeWhile_cons_of_neg (by simp), List.append_nil]

theorem exists_name (h : '/' ∈ text) : ∃ name, text = firstSegment text ++ '/' :: name := by
  obtain ⟨provider, name, rfl, hprovider⟩ := List.eq_append_cons_of_mem h
  exact ⟨name, by rw [firstSegment_append hprovider]⟩

theorem parse_eq_ok_iff {m : ModelId} : ModelId.parse text = .ok m ↔ Text.strip text ≠ [] ∧
    m = if '/' ∈ (cutRouting text).2 then slashId text (cutRouting text).2 (cutRouting text).1
      else localId text (cutRouting text).2 := by
  unfold ModelId.parse
  by_cases hblank : Text.strip text = []
  · rw [if_pos hblank]
    exact iff_of_false nofun fun h => h.1 hblank
  · rw [if_neg hblank, ← apply_ite Except.ok, Except.ok.injEq, eq_comm]
    exact (and_iff_right hblank).symm

/-! ## The name for the provider -/

/-- The name for the provider before `-mcp` is taken off: behind the provider, if there is one. -/
def upstreamName (rest : List Char) : List Char :=
  if '/' ∈ rest ∧ firstSegment rest ≠ [] then rest.drop ((firstSegment rest).length + 1)
  else if '/' ∈ rest then rest
  else (localId rest rest).baseId

/-- A text whose name for the provider is clean: `-mcp` is not twice at its end, and not at all when a router gets it. -/
def CleanUpstream (text : List Char) : Prop :=
  if (cutRouting text).1 = some "openrouter".toList ∧ '/' ∈ (cutRouting text).2 then ¬mcpSuffix <:+ (cutRouting text).2
  else ¬mcpSuffix ++ mcpSuffix <:+ upstreamName (cutRouting text).2

theorem apiModelId_slashId {rest : List Char} (h : '/' ∈ rest) (layer : Option (List Char)) :
    (slashId text rest layer).apiModelId =
      if layer = some "openrouter".toList then rest else (cutSuffix mcpSuffix (upstreamName rest)).2 := by
  obtain ⟨name, hname⟩ := exists_name h
  have hprefix : firstSegment rest ++ ['/'] <+: rest := ⟨name, by rw [List.append_assoc]; exact hname.symm⟩
  simp only [ModelId.apiModelId, slashId, upstreamName, h, true_and, hprefix, and_true, if_true]
  split_ifs <;> rfl

theorem apiModelId_localId {rest : List Char} (h : '/' ∉ rest) :
    (localId text rest).apiModelId = (cutSuffix mcpSuffix (upstreamName rest)).2 := by
  rw [upstreamName, if_neg fun hand => h hand.1, if_neg h]
  rfl

/-- **The name for the provider** has no `-mcp` at its end just when the text is clean. -/
theorem apiModelId_clean_iff {text : List Char} {m : ModelId} (h : ModelId.parse text = .ok m) :
    ¬mcpSuffix <:+ m.apiModelId ↔ CleanUpstream text := by
  obtain ⟨-, rfl⟩ := parse_eq_ok_iff.1 h
  unfold CleanUpstream
  by_cases hslash : '/' ∈ (cutRouting text).2
  · rw [if_pos hslash, apiModelId_slashId hslash]
    by_cases hrouter : (cutRouting text).1 = some "openrouter".toList
    · rw [if_pos hrouter, if_pos ⟨hrouter, hslash⟩]
    · rw [if_neg hrouter, if_neg fun hand => hrouter hand.1, suffix_cutSuffix_iff]
  · rw [if_neg hslash, if_neg fun hand => hslash hand.2, apiModelId_localId hslash, suffix_cutSuffix_iff]

/-- A name that is marked once is clean. -/
theorem clean_marked : ∃ m, ModelId.parse "anthropic/claude-mcp".toList = .ok m ∧ ¬mcpSuffix <:+ m.apiModelId := by
  have hparse : ModelId.parse "anthropic/claude-mcp".toList = .ok (slashId _ _ none) := rfl
  refine ⟨_, hparse, (apiModelId_clean_iff hparse).2 ?_⟩
  unfold CleanUpstream
  decide

/-- The mark goes through a router. -/
theorem routed_marked : ∃ m, ModelId.parse "openrouter/anthropic/claude-mcp".toList = .ok m ∧ mcpSuffix <:+ m.apiModelId :=
  ⟨_, rfl, by decide⟩

end LlmGateway.ModelIds
