import LlmGateway.Foundations.Numbering
import LlmGateway.ModelIds.ModelId

/-!
# Normalised ids

What parsing does to the id that `normalized` or `syntheticId` writes. Each suffix is taken off once, so an id that
carries `-hybrid` twice is another one when it is normalised a second time; a text equals an id without having its hash
when it carries `-hybrid`, a routing prefix or zeros in front of its context; and a base that ends like a suffix, or a
context of fewer than three digits, is not found again (`normalisation_iff`).
-/

namespace LlmGateway.ModelIds

/-! ## The context as it is written -/

/-- An id with its context as `str` writes it. -/
def normContext (s : List Char) : List Char :=
  (contextMatch s).elim s fun found => found.1 ++ '-' :: Nat.toDigits 10 (value found.2)

/-- A suffix that no context ends with. -/
def Lettered (suffix : List Char) : Prop := ∃ c ∈ suffix.getLast?, isDecimal c = false ∧ c ≠ '\n'

theorem lettered_cpu : Lettered cpuSuffix := ⟨'u', by decide, by decide, by decide⟩

theorem lettered_hybrid : Lettered hybridSuffix := ⟨'d', by decide, by decide, by decide⟩

variable {s front digits suffix : List Char}

theorem normContext_of_none (h : contextMatch s = none) : normContext s = s := by
  rw [normContext, h, Option.elim_none]

theorem normContext_of_some (h : contextMatch s = some (front, digits)) :
    normContext s = front ++ '-' :: Nat.toDigits 10 (value digits) := by
  rw [normContext, h, Option.elim_some]

theorem value_toDigits (n : ℕ) : value (Nat.toDigits 10 n) = n := by
  have hascii : (Nat.toDigits 10 n).map Decimal.toAscii = Nat.toDigits 10 n := by
    refine (List.map_congr_left fun c hc => ?_).trans (List.map_id _)
    have hbounds := Decimal.bounds_of_isDigit (Decimal.isDigit_toDigits hc)
    exact if_pos (by omega)
  rw [value, hascii, Nat.ofDigitChars_ten_toDigits]

theorem newline_not_mem (h : ∀ c ∈ digits, isDecimal c = true) : '\n' ∉ digits := fun hmem => by
  have hdec := h _ hmem
  rw [isDecimal_newline] at hdec
  cases hdec

theorem hyphen_inj {front' digits' : List Char} (h : ∀ c ∈ digits, isDecimal c = true)
    (h' : ∀ c ∈ digits', isDecimal c = true) (heq : front ++ '-' :: digits = front' ++ '-' :: digits') :
    front = front' ∧ digits = digits' := by
  have hdigits := congrArg (List.rtakeWhile isDecimal) heq
  rw [rtakeWhile_append isDecimal_hyphen h, rtakeWhile_append isDecimal_hyphen h'] at hdigits
  subst hdigits
  exact ⟨List.append_cancel_right heq, rfl⟩

theorem contextMatch_of_digits (h : ∀ c ∈ digits, isDecimal c = true) : contextMatch (front ++ '-' :: digits) =
    if 3 ≤ digits.length ∧ digits.length ≤ 6 then some (front, digits) else none := by
  split_ifs with hlen
  · exact contextMatch_eq_some_iff.2 ⟨.inl rfl, hlen.1, hlen.2, h⟩
  · rw [Option.eq_none_iff_forall_not_mem]
    rintro ⟨front', digits'⟩ hmatch
    obtain ⟨heq | heq, hge, hle, h'⟩ := contextMatch_eq_some_iff.1 hmatch
    · obtain ⟨-, rfl⟩ := hyphen_inj h h' heq
      exact hlen ⟨hge, hle⟩
    · have hlast := congrArg List.getLast? heq
      rw [List.getLast?_concat, List.getLast?_append_of_ne_nil _ (List.cons_ne_nil _ _)] at hlast
      obtain ⟨body, hbody⟩ := List.getLast?_eq_some_iff.1 hlast
      have hmem : '\n' ∈ '-' :: digits := by
        rw [hbody]
        exact List.mem_append_right _ (List.mem_singleton_self _)
      obtain heq | hmem := List.mem_cons.1 hmem
      · cases heq
      · exact newline_not_mem h hmem

theorem normContext_digits (front : List Char) (n : ℕ) :
    normContext (front ++ '-' :: Nat.toDigits 10 n) = front ++ '-' :: Nat.toDigits 10 n := by
  rw [normContext, contextMatch_of_digits fun c hc => isDecimal_of_mem_toDigits hc]
  split_ifs
  · rw [Option.elim_some, value_toDigits]
  · rfl

theorem normContext_normContext (s : List Char) : normContext (normContext s) = normContext s := by
  cases h : contextMatch s with
  | none => rw [normContext_of_none h, normContext_of_none h]
  | some found => rw [normContext_of_some h, normContext_digits]

theorem getLast?_of_suffix {c : Char} (hc : c ∈ suffix.getLast?) (h : suffix <:+ s) : s.getLast? = some c := by
  obtain ⟨rest, rfl⟩ := h
  obtain ⟨body, hbody⟩ := List.getLast?_eq_some_iff.1 hc
  rw [hbody, ← List.append_assoc, List.getLast?_concat]

theorem not_suffix_of_contextMatch (hsuffix : Lettered suffix) {found : List Char × List Char}
    (h : contextMatch s = some found) : ¬suffix <:+ s := fun hs => by
  obtain ⟨c, hc, hdec, hnl⟩ := hsuffix
  have hlast := getLast?_of_suffix hc hs
  obtain ⟨hs | hs, hge, -, hdigits⟩ := contextMatch_eq_some_iff.1 h
  · have hne : found.2 ≠ [] := fun hnil => by
      rw [hnil] at hge
      exact absurd hge (by decide)
    rw [hs, List.getLast?_append_of_ne_nil _ (List.cons_ne_nil _ _), List.getLast?_cons_of_ne_nil hne] at hlast
    obtain ⟨body, hbody⟩ := List.getLast?_eq_some_iff.1 hlast
    have hdec' := hdigits c (by rw [hbody]; exact List.mem_append_right _ (List.mem_singleton_self _))
    rw [hdec] at hdec'
    cases hdec'
  · rw [hs, List.getLast?_concat] at hlast
    exact hnl (Option.some.inj hlast).symm

theorem not_suffix_digits (hsuffix : Lettered suffix) (front : List Char) (n : ℕ) :
    ¬suffix <:+ front ++ '-' :: Nat.toDigits 10 n := fun hs => by
  obtain ⟨c, hc, hdec, -⟩ := hsuffix
  have hlast := getLast?_of_suffix hc hs
  rw [List.getLast?_append_of_ne_nil _ (List.cons_ne_nil _ _), List.getLast?_cons_of_ne_nil Nat.toDigits_ne_nil] at hlast
  obtain ⟨body, hbody⟩ := List.getLast?_eq_some_iff.1 hlast
  have hmem : c ∈ Nat.toDigits 10 n := by
    rw [hbody]
    exact List.mem_append_right _ (List.mem_singleton_self _)
  rw [isDecimal_of_mem_toDigits hmem] at hdec
  cases hdec

theorem suffix_normContext_iff (hsuffix : Lettered suffix) : suffix <:+ normContext s ↔ suffix <:+ s := by
  cases h : contextMatch s with
  | none => rw [normContext_of_none h]
  | some found =>
    rw [normContext_of_some h]
    exact iff_of_false (not_suffix_digits hsuffix _ _) (not_suffix_of_contextMatch hsuffix h)

theorem normContext_of_suffix (hsuffix : Lettered suffix) (h : suffix <:+ s) : normContext s = s := by
  cases hmatch : contextMatch s with
  | none => exact normContext_of_none hmatch
  | some found => exact absurd h (not_suffix_of_contextMatch hsuffix hmatch)

theorem normContext_ne_append (hsuffix : Lettered suffix) : normContext s ≠ s ++ suffix := fun h => by
  have hs : suffix <:+ s := (suffix_normContext_iff hsuffix).1 (h ▸ List.suffix_append s suffix)
  rw [normContext_of_suffix hsuffix hs] at h
  obtain ⟨c, hc, -⟩ := hsuffix
  have hnil : suffix = [] := List.append_cancel_left (h.symm.trans (List.append_nil s).symm)
  rw [hnil] at hc
  cases hc

/-! ## Normalising twice -/

/-- The normalised id of a text without a slash. -/
def normalForm (s : List Char) : List Char :=
  normContext (cutSuffixes s).2 ++ if (cutSuffixes s).1.1 then cpuSuffix else []

theorem normalized_localId (text rest : List Char) : (localId text rest).normalized = normalForm rest := by
  rw [ModelId.normalized, normalForm, ModelId.joined]
  cases h : contextMatch (cutSuffixes rest).2 with
  | none => simp only [localId, h, normContext_of_none h, Option.elim_none, Option.map_none, List.append_nil]
  | some found =>
    simp only [localId, h, normContext_of_some h, Option.elim_some, Option.map_some]
    rfl

theorem normalized_slashId (text rest : List Char) (layer : Option (List Char)) :
    (slashId text rest layer).normalized = rest := by
  simp [ModelId.normalized, ModelId.joined, slashId]

/-- `-hybrid` is not there twice, and what it hides is no device suffix behind another one or behind a context that is
written otherwise. -/
def StableSuffixes (s : List Char) : Prop :=
  ¬hybridSuffix <:+ (cutSuffixes s).2 ∧ ((cutSuffixes s).1.1 = false →
    ∀ w, (cutSuffixes s).2 = w ++ cpuSuffix → ¬hybridSuffix <:+ w ∧ normContext w = w)

theorem normalForm_append_cpu (s : List Char) : normalForm (s ++ cpuSuffix) =
    normContext (cutSuffix hybridSuffix s).2 ++ cpuSuffix := by
  simp only [normalForm, cutSuffixes, cutSuffix_append, if_true]

theorem normalForm_of_not (h : ¬cpuSuffix <:+ s) : normalForm s = normContext (cutSuffix hybridSuffix s).2 := by
  simp only [normalForm, cutSuffixes, cutSuffix_of_not h, Bool.false_eq_true, if_false, List.append_nil]

theorem normContext_cutSuffix_iff : normContext (cutSuffix hybridSuffix s).2 = s ↔
    ¬hybridSuffix <:+ s ∧ normContext s = s := by
  by_cases h : hybridSuffix <:+ s
  · obtain ⟨w, rfl⟩ := h
    rw [cutSuffix_append]
    exact iff_of_false (normContext_ne_append lettered_hybrid) fun hand => hand.1 (List.suffix_append _ _)
  · rw [cutSuffix_of_not h, and_iff_right h]

theorem normalForm_normalForm_iff : normalForm (normalForm s) = normalForm s ↔ StableSuffixes s := by
  unfold StableSuffixes
  set v := (cutSuffixes s).2 with hv
  cases hcpu : (cutSuffixes s).1.1 with
  | true =>
    have hform : normalForm s = normContext v ++ cpuSuffix := by rw [normalForm, hcpu, if_pos rfl]
    rw [hform, normalForm_append_cpu, List.append_cancel_right_eq, normContext_cutSuffix_iff, normContext_normContext,
      suffix_normContext_iff lettered_hybrid]
    exact and_congr_right fun _ => iff_of_true rfl nofun
  | false =>
    have hform : normalForm s = normContext v := by
      rw [normalForm, hcpu, if_neg Bool.false_ne_true, List.append_nil]
    rw [hform]
    by_cases hdevice : cpuSuffix <:+ v
    · obtain ⟨w, hw⟩ := hdevice
      have hself : normContext v = v := normContext_of_suffix lettered_cpu ⟨w, hw⟩
      have hnot : ¬hybridSuffix <:+ v := fun hhybrid => by
        have hlast := (getLast?_of_suffix (c := 'd') rfl hhybrid).symm.trans (getLast?_of_suffix (c := 'u') rfl ⟨w, hw⟩)
        exact absurd hlast (by decide)
      rw [hself, ← hw, normalForm_append_cpu, List.append_cancel_right_eq, normContext_cutSuffix_iff]
      constructor
      · intro h
        refine ⟨hw ▸ hnot, fun _ w' hw' => ?_⟩
        rw [← List.append_cancel_right hw']
        exact h
      · exact fun h => h.2 rfl w rfl
    · rw [normalForm_of_not fun h => hdevice ((suffix_normContext_iff lettered_cpu).1 h), normContext_cutSuffix_iff,
        normContext_normContext, suffix_normContext_iff lettered_hybrid]
      exact and_congr_right fun _ => iff_of_true rfl fun _ w hw => absurd ⟨w, hw.symm⟩ hdevice

theorem strip_ne_nil {c : Char} (h : c ∈ s) (hc : Json.isSpace c = false) : Text.strip s ≠ [] := fun hnil => by
  rw [Text.strip_eq_nil_iff.1 hnil c h] at hc
  cases hc

theorem strip_normContext : Text.strip (normContext s) = [] ↔ Text.strip s = [] := by
  cases h : contextMatch s with
  | none => rw [normContext_of_none h]
  | some found =>
    have hmem : '-' ∈ s := by
      obtain ⟨hs | hs, -⟩ := contextMatch_eq_some_iff.1 h <;> simp [hs]
    rw [normContext_of_some h]
    exact iff_of_false (strip_ne_nil (c := '-') (by simp) (by decide)) (strip_ne_nil hmem (by decide))

theorem strip_normalForm : Text.strip (normalForm s) = [] ↔
    (cutSuffixes s).1.1 = false ∧ Text.strip (cutSuffixes s).2 = [] := by
  rw [normalForm]
  cases (cutSuffixes s).1.1 with
  | true =>
    rw [if_pos rfl]
    exact iff_of_false (strip_ne_nil (List.mem_append_right _ (by decide : '-' ∈ cpuSuffix)) (by decide))
      fun h => nomatch h.1
  | false => rw [if_neg Bool.false_ne_true, List.append_nil, strip_normContext, and_iff_right rfl]

theorem cutSuffix_subset (suffix s : List Char) : (cutSuffix suffix s).2 ⊆ s := by
  unfold cutSuffix
  split
  · exact List.take_subset _ _
  · exact List.Subset.refl _

theorem slash_not_mem_normContext (h : '/' ∉ s) : '/' ∉ normContext s := by
  cases hmatch : contextMatch s with
  | none => rwa [normContext_of_none hmatch]
  | some found =>
    rw [normContext_of_some hmatch, List.mem_append, List.mem_cons, not_or, not_or]
    refine ⟨fun hmem => h ?_, by decide, Numbering.separator_not_mem_toDigits (by decide) _⟩
    obtain ⟨hs | hs, -⟩ := contextMatch_eq_some_iff.1 hmatch <;> simp [hs, hmem]

theorem slash_not_mem_normalForm (h : '/' ∉ s) : '/' ∉ normalForm s := by
  have hcut : '/' ∉ (cutSuffixes s).2 := fun hmem => h (cutSuffix_subset _ _ (cutSuffix_subset _ _ hmem))
  rw [normalForm, List.mem_append, not_or]
  refine ⟨slash_not_mem_normContext hcut, ?_⟩
  split <;> decide

theorem cutRouting_of_not_mem (h : '/' ∉ s) : cutRouting s = (none, s) := if_neg fun hand => h hand.1

theorem cutRouting_of_mem (h : '/' ∈ s) (hrouter : firstSegment s ∈ routingPrefixes) :
    cutRouting s = (some (firstSegment s), s.drop ((firstSegment s).length + 1)) := if_pos ⟨h, hrouter⟩

theorem cutRouting_of_not_router (hrouter : firstSegment s ∉ routingPrefixes) : cutRouting s = (none, s) :=
  if_neg fun hand => hrouter hand.2

/-- The id that `normalized` writes is read as the same id again. -/
def Idempotent (text : List Char) : Prop :=
  ∃ m m', ModelId.parse text = .ok m ∧ ModelId.parse m.normalized = .ok m' ∧ m'.eq m = true

/-- A text that is not blank without a routing prefix, `-hybrid` and `-cpu`, and keeps its normalised form. -/
def Stable (text : List Char) : Prop :=
  Text.strip text ≠ [] ∧ if '/' ∈ (cutRouting text).2 then firstSegment (cutRouting text).2 ∉ routingPrefixes
    else ((cutSuffixes (cutRouting text).2).1.1 = false → Text.strip (cutSuffixes (cutRouting text).2).2 ≠ []) ∧
      StableSuffixes (cutRouting text).2

variable {m : ModelId} {rest text : List Char}

theorem eq_iff {o : ModelId} : m.eq o = true ↔ m.normalized = o.normalized ∧ m.backendType = o.backendType := by
  rw [ModelId.eq, Bool.and_eq_true, beq_iff_eq, beq_iff_eq]

theorem idempotent_slash_iff (layer : Option (List Char)) (h : '/' ∈ rest) :
    (∃ m', ModelId.parse rest = .ok m' ∧ m'.eq (slashId text rest layer) = true) ↔
      firstSegment rest ∉ routingPrefixes := by
  have hblank : Text.strip rest ≠ [] := strip_ne_nil h (by decide)
  constructor
  · rintro ⟨m', hparse, heq⟩ hrouter
    obtain ⟨-, rfl⟩ := parse_eq_ok_iff.1 hparse
    have hnorm := (eq_iff.1 heq).1
    rw [normalized_slashId, cutRouting_of_mem h hrouter] at hnorm
    split_ifs at hnorm with hslash
    · rw [normalized_slashId] at hnorm
      have hlen := congrArg List.length hnorm
      rw [List.length_drop] at hlen
      have hpos := List.length_pos_of_mem h
      omega
    · rw [normalized_localId] at hnorm
      have hnone := slash_not_mem_normalForm hslash
      rw [hnorm] at hnone
      exact hnone h
  · intro hrouter
    have hparse : ModelId.parse rest = .ok (slashId rest rest none) :=
      parse_eq_ok_iff.2 ⟨hblank, by rw [cutRouting_of_not_router hrouter, if_pos h]⟩
    exact ⟨_, hparse, eq_iff.2 ⟨by rw [normalized_slashId, normalized_slashId], rfl⟩⟩

theorem idempotent_local_iff (h : '/' ∉ rest) :
    (∃ m', ModelId.parse (normalForm rest) = .ok m' ∧ m'.eq (localId text rest) = true) ↔
      ((cutSuffixes rest).1.1 = false → Text.strip (cutSuffixes rest).2 ≠ []) ∧ StableSuffixes rest := by
  have hslash := slash_not_mem_normalForm h
  have hblank : Text.strip (normalForm rest) ≠ [] ↔
      ((cutSuffixes rest).1.1 = false → Text.strip (cutSuffixes rest).2 ≠ []) := by
    rw [Ne, strip_normalForm, not_and]
  rw [← hblank, ← normalForm_normalForm_iff]
  constructor
  · rintro ⟨m', hparse, heq⟩
    obtain ⟨hne, rfl⟩ := parse_eq_ok_iff.1 hparse
    have hnorm := (eq_iff.1 heq).1
    rw [cutRouting_of_not_mem hslash, if_neg hslash, normalized_localId, normalized_localId] at hnorm
    exact ⟨hne, hnorm⟩
  · rintro ⟨hne, hnorm⟩
    have hparse : ModelId.parse (normalForm rest) = .ok (localId (normalForm rest) (normalForm rest)) :=
      parse_eq_ok_iff.2 ⟨hne, by rw [cutRouting_of_not_mem hslash, if_neg hslash]⟩
    exact ⟨_, hparse, eq_iff.2 ⟨by rw [normalized_localId, normalized_localId, hnorm], rfl⟩⟩

theorem idempotent_iff (text : List Char) : Idempotent text ↔ Stable text := by
  have hparse : Idempotent text ↔ Text.strip text ≠ [] ∧ ∃ m',
      ModelId.parse (if '/' ∈ (cutRouting text).2 then slashId text (cutRouting text).2 (cutRouting text).1
        else localId text (cutRouting text).2).normalized = .ok m' ∧
      m'.eq (if '/' ∈ (cutRouting text).2 then slashId text (cutRouting text).2 (cutRouting text).1
        else localId text (cutRouting text).2) = true := by
    constructor
    · rintro ⟨m, m', hm, hm', heq⟩
      obtain ⟨hne, rfl⟩ := parse_eq_ok_iff.1 hm
      exact ⟨hne, m', hm', heq⟩
    · rintro ⟨hne, m', hm', heq⟩
      exact ⟨_, m', parse_eq_ok_iff.2 ⟨hne, rfl⟩, hm', heq⟩
  rw [hparse, Stable]
  refine and_congr_right fun _ => ?_
  split_ifs with hslash
  · rw [normalized_slashId]
    exact idempotent_slash_iff _ hslash
  · rw [normalized_localId]
    exact idempotent_local_iff hslash

/-! ## Texts that equal an id -/

/-- The text has the hash of every id that equals it. -/
def HashAgrees (text : List Char) : Prop :=
  ∀ m : ModelId, m.eqText text = true → ∀ hash : List Char → ℤ, m.hash hash = hash text

/-- A text without a routing prefix and `-hybrid`, and with its context as `str` writes it. -/
def Canonical (text : List Char) : Prop :=
  (cutRouting text).1 = none ∧
    ('/' ∉ text → ¬hybridSuffix <:+ (cutSuffix cpuSuffix text).2 ∧
      normContext (cutSuffix cpuSuffix text).2 = (cutSuffix cpuSuffix text).2)

theorem normalForm_eq_self_iff : normalForm s = s ↔ ¬hybridSuffix <:+ (cutSuffix cpuSuffix s).2 ∧
    normContext (cutSuffix cpuSuffix s).2 = (cutSuffix cpuSuffix s).2 := by
  by_cases h : cpuSuffix <:+ s
  · obtain ⟨w, rfl⟩ := h
    rw [normalForm_append_cpu, List.append_cancel_right_eq, cutSuffix_append, normContext_cutSuffix_iff]
  · rw [normalForm_of_not h, cutSuffix_of_not h, normContext_cutSuffix_iff]

theorem normalized_eq_self_iff (h : ModelId.parse text = .ok m) :
    m.normalized = text ↔ Canonical text := by
  obtain ⟨-, rfl⟩ := parse_eq_ok_iff.1 h
  unfold Canonical
  by_cases hrouter : '/' ∈ text ∧ firstSegment text ∈ routingPrefixes
  · rw [cutRouting_of_mem hrouter.1 hrouter.2]
    refine iff_of_false (fun hnorm => ?_) fun hand => nomatch hand.1
    split_ifs at hnorm with hslash
    · rw [normalized_slashId] at hnorm
      have hlen := congrArg List.length hnorm
      rw [List.length_drop] at hlen
      have hpos := List.length_pos_of_mem hrouter.1
      omega
    · rw [normalized_localId] at hnorm
      have hnone := slash_not_mem_normalForm hslash
      rw [hnorm] at hnone
      exact hnone hrouter.1
  · have hcut : cutRouting text = (none, text) := if_neg hrouter
    rw [hcut]
    split_ifs with hslash
    · rw [normalized_slashId]
      exact iff_of_true rfl ⟨rfl, fun hno => absurd hslash hno⟩
    · rw [normalized_localId, normalForm_eq_self_iff]
      exact ⟨fun hand => ⟨rfl, fun _ => hand⟩, fun hand => hand.2 hslash⟩

theorem hashAgrees_iff (text : List Char) : HashAgrees text ↔ (Text.strip text ≠ [] → Canonical text) := by
  constructor
  · intro h hblank
    obtain ⟨m, hm⟩ : ∃ m, ModelId.parse text = .ok m := ⟨_, parse_eq_ok_iff.2 ⟨hblank, rfl⟩⟩
    have heq : m.eqText text = true := by
      rw [ModelId.eqText, hm]
      exact eq_iff.2 ⟨rfl, rfl⟩
    -- a hash that tells the two texts apart
    have hhash := h m heq fun s => if s = text then 1 else 0
    rw [ModelId.hash, if_pos rfl] at hhash
    refine (normalized_eq_self_iff hm).1 (by_contra fun hne => ?_)
    rw [if_neg hne] at hhash
    cases hhash
  · intro h m heq hash
    unfold ModelId.eqText at heq
    split at heq
    · rename_i o ho
      rw [ModelId.hash, (eq_iff.1 heq).1, (normalized_eq_self_iff ho).2 (h (parse_eq_ok_iff.1 ho).1)]
    · cases heq

theorem hash_eq_of_eq {o : ModelId} (h : m.eq o = true) (hash : List Char → ℤ) : m.hash hash = o.hash hash :=
  congrArg hash (eq_iff.1 h).1

/-! ## Components that are found again -/

/-- The components of the id are found again in the id that they make. -/
def Recovered (m : ModelId) : Prop :=
  ∃ o, ModelId.parse m.syntheticId = .ok o ∧ o.baseId = m.baseId ∧ o.contextLength = m.contextLength ∧
    o.isCpu = m.isCpu ∧ o.isHybrid = m.isHybrid

/-- Nothing stands behind a base with a slash; a context has three to six digits; and a base without a context ends
like none, nor like a suffix that could be taken off it. -/
def Recoverable (m : ModelId) : Prop :=
  if '/' ∈ m.baseId then
    firstSegment m.baseId ∉ routingPrefixes ∧ m.contextLength = none ∧ m.isHybrid = false ∧ m.isCpu = false
  else
    match m.contextLength with
    | some k => 100 ≤ k ∧ k ≤ 999999
    | none => contextMatch m.baseId = none ∧ (m.isHybrid = false → ¬hybridSuffix <:+ m.baseId ∧
        (m.isCpu = false → ¬cpuSuffix <:+ m.baseId ∧ Text.strip m.baseId ≠ []))

variable {m : ModelId}

/-- What stands behind the base. -/
def tail (m : ModelId) : List Char :=
  (m.contextLength.elim [] fun k => '-' :: numeral k) ++ (if m.isHybrid then hybridSuffix else []) ++
    if m.isCpu then cpuSuffix else []

theorem syntheticId_eq (m : ModelId) : m.syntheticId = m.baseId ++ tail m := by
  rw [ModelId.syntheticId, ModelId.joined, tail, List.append_assoc, List.append_assoc, List.append_assoc]

theorem slash_not_mem_numeral (k : ℤ) : '/' ∉ numeral k := by
  cases k with
  | ofNat n => exact Numbering.separator_not_mem_toDigits (by decide) n
  | negSucc n => exact List.not_mem_cons_of_ne_of_not_mem (by decide) (Numbering.separator_not_mem_toDigits (by decide) _)

theorem slash_not_mem_tail (m : ModelId) : '/' ∉ tail m := by
  rw [tail, List.mem_append, List.mem_append, not_or, not_or]
  refine ⟨⟨?_, ?_⟩, ?_⟩
  · cases m.contextLength with
    | none => exact List.not_mem_nil
    | some k => exact List.not_mem_cons_of_ne_of_not_mem (by decide) (slash_not_mem_numeral k)
  · split <;> decide
  · split <;> decide

theorem tail_eq_nil_iff : tail m = [] ↔ m.contextLength = none ∧ m.isHybrid = false ∧ m.isCpu = false := by
  rw [tail, List.append_eq_nil_iff, List.append_eq_nil_iff, and_assoc]
  refine and_congr ?_ (and_congr ?_ ?_)
  · cases m.contextLength with
    | none => exact iff_of_true rfl rfl
    | some k => exact iff_of_false (List.cons_ne_nil _ _) nofun
  · cases m.isHybrid with
    | true => decide
    | false => decide
  · cases m.isCpu with
    | true => decide
    | false => decide

theorem slash_not_mem_localId (h : '/' ∉ rest) : '/' ∉ (localId text rest).baseId := by
  have hcut : '/' ∉ (cutSuffixes rest).2 := fun hmem => h (cutSuffix_subset _ _ (cutSuffix_subset _ _ hmem))
  unfold localId
  cases hmatch : contextMatch (cutSuffixes rest).2 with
  | none => exact hcut
  | some found =>
    obtain ⟨hs | hs, -⟩ := contextMatch_eq_some_iff.1 hmatch
    · exact fun hmem => hcut (by rw [hs]; exact List.mem_append_left _ hmem)
    · exact fun hmem => hcut (by rw [hs, List.append_assoc]; exact List.mem_append_left _ hmem)

theorem recovered_slash_iff (h : '/' ∈ m.baseId) : Recovered m ↔ firstSegment m.baseId ∉ routingPrefixes ∧ tail m = [] := by
  obtain ⟨name, hname⟩ := exists_name h
  have hnot : '/' ∉ firstSegment m.baseId := fun hmem => by simpa using List.mem_takeWhile_imp hmem
  have hid : m.syntheticId = firstSegment m.baseId ++ '/' :: (name ++ tail m) := by
    conv_lhs => rw [syntheticId_eq, hname]
    rw [List.append_assoc, List.cons_append]
  have hfirst : firstSegment m.syntheticId = firstSegment m.baseId := by rw [hid, firstSegment_append hnot]
  have hmem : '/' ∈ m.syntheticId := by
    rw [hid]
    exact List.mem_append_right _ List.mem_cons_self
  constructor
  · rintro ⟨o, hparse, hbase, -⟩
    obtain ⟨-, rfl⟩ := parse_eq_ok_iff.1 hparse
    have hrouter : firstSegment m.baseId ∉ routingPrefixes := by
      intro hrouter
      have hcut : (cutRouting m.syntheticId).2 = name ++ tail m := by
        rw [cutRouting_of_mem hmem (hfirst.symm ▸ hrouter), hfirst, hid, ← List.drop_drop, List.drop_left]
        rfl
      rw [hcut] at hbase
      split_ifs at hbase with hslash
      · -- one slash too few
        have hcount := congrArg (List.count '/') hbase
        have heq : (slashId m.syntheticId (name ++ tail m) (cutRouting m.syntheticId).1).baseId = name ++ tail m := rfl
        rw [heq] at hcount
        conv_rhs at hcount => rw [hname]
        rw [List.count_append, List.count_append, List.count_cons_self, List.count_eq_zero.2 hnot,
          List.count_eq_zero.2 (slash_not_mem_tail m)] at hcount
        omega
      · have hnone : '/' ∉ (localId m.syntheticId _).baseId := slash_not_mem_localId hslash
        rw [hbase] at hnone
        exact hnone h
    refine ⟨hrouter, ?_⟩
    rw [cutRouting_of_not_router (hfirst.symm ▸ hrouter), if_pos hmem] at hbase
    have heq : m.baseId ++ tail m = m.baseId := (syntheticId_eq m).symm.trans hbase
    exact List.append_cancel_left (heq.trans (List.append_nil _).symm)
  · rintro ⟨hrouter, htail⟩
    have hself : m.syntheticId = m.baseId := by rw [syntheticId_eq, htail, List.append_nil]
    obtain ⟨hcontext, hhybrid, hcpu⟩ := tail_eq_nil_iff.1 htail
    have hparse : ModelId.parse m.syntheticId = .ok (slashId m.syntheticId m.syntheticId none) :=
      parse_eq_ok_iff.2 ⟨strip_ne_nil hmem (by decide), by
        rw [cutRouting_of_not_router (hfirst.symm ▸ hrouter), if_pos hmem]⟩
    exact ⟨_, hparse, hself, hcontext.symm, hcpu.symm, hhybrid.symm⟩

/-- The base and the context are found in the id without its suffixes. -/
def Found (m : ModelId) : Prop :=
  (contextMatch m.joined).elim m.joined Prod.fst = m.baseId ∧
    (contextMatch m.joined).map (fun found => (value found.2 : ℤ)) = m.contextLength

theorem length_digits_iff (n : ℕ) :
    3 ≤ (Nat.toDigits 10 n).length ∧ (Nat.toDigits 10 n).length ≤ 6 ↔ 100 ≤ (n : ℤ) ∧ (n : ℤ) ≤ 999999 := by
  have hlow : (Nat.toDigits 10 n).length ≤ 2 ↔ n < 10 ^ 2 := Nat.length_toDigits_le_iff (by decide) (by decide)
  have hhigh : (Nat.toDigits 10 n).length ≤ 6 ↔ n < 10 ^ 6 := Nat.length_toDigits_le_iff (by decide) (by decide)
  omega

theorem joined_of_none (h : m.contextLength = none) : m.joined = m.baseId := by
  rw [ModelId.joined, h, Option.elim_none, List.append_nil]

theorem joined_of_some {k : ℤ} (h : m.contextLength = some k) : m.joined = m.baseId ++ '-' :: numeral k := by
  rw [ModelId.joined, h, Option.elim_some]

theorem found_of_none (h : m.contextLength = none) : Found m ↔ contextMatch m.baseId = none := by
  rw [Found, joined_of_none h, h, Option.map_eq_none_iff]
  refine ⟨fun hand => hand.2, fun hnone => ⟨?_, hnone⟩⟩
  rw [hnone, Option.elim_none]

theorem found_of_some {k : ℤ} (h : m.contextLength = some k) : Found m ↔ 100 ≤ k ∧ k ≤ 999999 := by
  rw [Found, joined_of_some h, h]
  constructor
  · rintro ⟨hbase, hcontext⟩
    obtain ⟨⟨front, digits⟩, hmatch, rfl⟩ := Option.map_eq_some_iff.1 hcontext
    rw [hmatch, Option.elim_some] at hbase
    dsimp only at hbase hmatch ⊢
    subst hbase
    obtain ⟨hs, hge, hle, hdigits⟩ := contextMatch_eq_some_iff.1 hmatch
    have hnumeral : ∀ c ∈ numeral (value digits : ℤ), isDecimal c = true := fun c hc => isDecimal_of_mem_toDigits hc
    obtain hs | hs := hs
    · rw [← length_digits_iff]
      have heq : Nat.toDigits 10 (value digits) = digits := (hyphen_inj hnumeral hdigits hs).2
      exact heq.symm ▸ ⟨hge, hle⟩
    · rw [List.append_assoc, List.cons_append] at hs
      have heq := (List.cons.inj (List.append_cancel_left hs)).2
      have hmem : '\n' ∈ numeral (value digits : ℤ) := by
        rw [heq]
        exact List.mem_append_right _ (List.mem_singleton_self _)
      exact absurd hmem (newline_not_mem hnumeral)
  · intro hk
    obtain ⟨n, rfl⟩ := Int.eq_ofNat_of_zero_le (by omega : 0 ≤ k)
    have hmatch : contextMatch (m.baseId ++ '-' :: numeral n) = some (m.baseId, Nat.toDigits 10 n) := by
      refine (contextMatch_of_digits fun c hc => isDecimal_of_mem_toDigits hc).trans (if_pos ?_)
      exact (length_digits_iff n).2 hk
    rw [hmatch, Option.elim_some, Option.map_some, value_toDigits]
    exact ⟨rfl, rfl⟩

/-! ## Suffixes that are found again -/

theorem cutSuffix_fst_eq_false : (cutSuffix suffix s).1 = false ↔ ¬suffix <:+ s := by
  unfold cutSuffix
  split_ifs with h
  · exact iff_of_false nofun (not_not_intro h)
  · exact iff_of_true rfl h

theorem not_cpu_append_hybrid (w : List Char) : ¬cpuSuffix <:+ w ++ hybridSuffix := fun h => by
  have hlast := (getLast?_of_suffix (c := 'u') rfl h).symm.trans
    (getLast?_of_suffix (c := 'd') rfl (List.suffix_append w hybridSuffix))
  exact absurd hlast (by decide)

theorem cutSuffixes_of_hybrid (h : m.isHybrid = true) : cutSuffixes m.syntheticId = ((m.isCpu, true), m.joined) := by
  rw [ModelId.syntheticId, h, if_pos rfl]
  cases m.isCpu with
  | true => simp only [cutSuffixes, if_true, cutSuffix_append]
  | false =>
    simp only [cutSuffixes, Bool.false_eq_true, if_false, List.append_nil, cutSuffix_of_not (not_cpu_append_hybrid _),
      cutSuffix_append]

theorem cutSuffixes_of_cpu (h : m.isHybrid = false) (hcpu : m.isCpu = true) : cutSuffixes m.syntheticId =
    ((true, (cutSuffix hybridSuffix m.joined).1), (cutSuffix hybridSuffix m.joined).2) := by
  rw [ModelId.syntheticId, h, hcpu, if_pos rfl, if_neg Bool.false_ne_true, List.append_nil]
  simp only [cutSuffixes, cutSuffix_append]

theorem syntheticId_of_plain (h : m.isHybrid = false) (hcpu : m.isCpu = false) : m.syntheticId = m.joined := by
  simp only [ModelId.syntheticId, h, hcpu, Bool.false_eq_true, if_false, List.append_nil]

theorem cutSuffixes_syntheticId_iff : cutSuffixes m.syntheticId = ((m.isCpu, m.isHybrid), m.joined) ↔
    (m.isHybrid = false → ¬hybridSuffix <:+ m.joined ∧ (m.isCpu = false → ¬cpuSuffix <:+ m.joined)) := by
  cases hhybrid : m.isHybrid with
  | true => exact iff_of_true (cutSuffixes_of_hybrid hhybrid) nofun
  | false =>
    cases hcpu : m.isCpu with
    | true =>
      rw [cutSuffixes_of_cpu hhybrid hcpu]
      constructor
      · intro h
        have hfirst := (Prod.mk.inj (Prod.mk.inj h).1).2
        exact fun _ => ⟨cutSuffix_fst_eq_false.1 hfirst, nofun⟩
      · intro h
        rw [cutSuffix_of_not (h rfl).1]
    | false =>
      rw [syntheticId_of_plain hhybrid hcpu]
      constructor
      · intro h
        obtain ⟨hfirst, -⟩ := Prod.mk.inj h
        obtain ⟨hdevice, hrest⟩ := Prod.mk.inj hfirst
        have hnot := cutSuffix_fst_eq_false.1 hdevice
        rw [cutSuffix_of_not hnot] at hrest
        exact fun _ => ⟨cutSuffix_fst_eq_false.1 hrest, fun _ => hnot⟩
      · intro h
        obtain ⟨hrest, hdevice⟩ := h rfl
        rw [cutSuffixes, cutSuffix_of_not (hdevice rfl), cutSuffix_of_not hrest]

theorem fst_cutSuffixes_iff : (cutSuffixes m.syntheticId).1 = (m.isCpu, m.isHybrid) ↔
    cutSuffixes m.syntheticId = ((m.isCpu, m.isHybrid), m.joined) := by
  refine ⟨fun h => cutSuffixes_syntheticId_iff.2 fun hhybrid => ?_, fun h => congrArg Prod.fst h⟩
  cases hcpu : m.isCpu with
  | true =>
    rw [cutSuffixes_of_cpu hhybrid hcpu, hhybrid] at h
    exact ⟨cutSuffix_fst_eq_false.1 (Prod.mk.inj h).2, nofun⟩
  | false =>
    rw [syntheticId_of_plain hhybrid hcpu, hhybrid, hcpu] at h
    obtain ⟨hdevice, hrest⟩ := Prod.mk.inj h
    have hnot := cutSuffix_fst_eq_false.1 hdevice
    rw [cutSuffix_of_not hnot] at hrest
    exact ⟨cutSuffix_fst_eq_false.1 hrest, fun _ => hnot⟩

theorem recovered_local_iff (h : '/' ∉ m.baseId) : Recovered m ↔ Text.strip m.syntheticId ≠ [] ∧
    cutSuffixes m.syntheticId = ((m.isCpu, m.isHybrid), m.joined) ∧ Found m := by
  have hmem : '/' ∉ m.syntheticId := by
    rw [syntheticId_eq, List.mem_append, not_or]
    exact ⟨h, slash_not_mem_tail m⟩
  have hcut := cutRouting_of_not_mem hmem
  constructor
  · rintro ⟨o, hparse, hbase, hcontext, hcpu, hhybrid⟩
    obtain ⟨hblank, rfl⟩ := parse_eq_ok_iff.1 hparse
    rw [hcut, if_neg hmem] at hbase hcontext hcpu hhybrid
    have hsuffixes := fst_cutSuffixes_iff.1 (Prod.ext hcpu hhybrid)
    simp only [localId, hsuffixes] at hbase hcontext
    exact ⟨hblank, hsuffixes, hbase, hcontext⟩
  · rintro ⟨hblank, hsuffixes, hbase, hcontext⟩
    have hparse : ModelId.parse m.syntheticId = .ok (localId m.syntheticId m.syntheticId) :=
      parse_eq_ok_iff.2 ⟨hblank, by rw [hcut, if_neg hmem]⟩
    refine ⟨_, hparse, ?_, ?_, congrArg (fun c => c.1.1) hsuffixes, congrArg (fun c => c.1.2) hsuffixes⟩
    · simp only [localId, hsuffixes]
      exact hbase
    · simp only [localId, hsuffixes]
      exact hcontext

theorem recovered_iff (m : ModelId) : Recovered m ↔ Recoverable m := by
  unfold Recoverable
  split_ifs with hslash
  · rw [recovered_slash_iff hslash, tail_eq_nil_iff]
  · rw [recovered_local_iff hslash, cutSuffixes_syntheticId_iff]
    cases hcontext : m.contextLength with
    | some k =>
      have hhyphen : '-' ∈ m.syntheticId := by
        rw [ModelId.syntheticId, joined_of_some hcontext]
        simp
      rw [found_of_some hcontext, and_iff_right (strip_ne_nil hhyphen (by decide))]
      refine and_iff_right_of_imp fun hk _ => ?_
      obtain ⟨n, rfl⟩ := Int.eq_ofNat_of_zero_le (by omega : 0 ≤ k)
      rw [joined_of_some hcontext]
      exact ⟨not_suffix_digits lettered_hybrid _ n, fun _ => not_suffix_digits lettered_cpu _ n⟩
    | none =>
      rw [found_of_none hcontext, joined_of_none hcontext]
      have hblank : Text.strip m.syntheticId ≠ [] ↔
          (m.isHybrid = false → m.isCpu = false → Text.strip m.baseId ≠ []) := by
        cases hhybrid : m.isHybrid with
        | true =>
          refine iff_of_true (strip_ne_nil (c := '-') ?_ (by decide)) nofun
          rw [ModelId.syntheticId, hhybrid]
          simp [hybridSuffix]
        | false =>
          cases hcpu : m.isCpu with
          | true =>
            refine iff_of_true (strip_ne_nil (c := '-') ?_ (by decide)) fun _ => nofun
            rw [ModelId.syntheticId, hcpu]
            simp [cpuSuffix]
          | false =>
            rw [syntheticId_of_plain hhybrid hcpu, joined_of_none hcontext]
            exact ⟨fun hne _ _ => hne, fun hne => hne rfl rfl⟩
      rw [hblank]
      constructor
      · rintro ⟨hne, hsuffixes, hmatch⟩
        exact ⟨hmatch, fun hh => ⟨(hsuffixes hh).1, fun hc => ⟨(hsuffixes hh).2 hc, hne hh hc⟩⟩⟩
      · rintro ⟨hmatch, hall⟩
        exact ⟨fun hh hc => ((hall hh).2 hc).2, fun hh => ⟨(hall hh).1, fun hc => ((hall hh).2 hc).1⟩, hmatch⟩

/-- **Normalised ids.** When a text keeps its normalised id, when it has the hash of the ids that it equals, and when the
components of an id are found again; ids that are equal have the same hash. -/
theorem normalisation_iff (text : List Char) (m o : ModelId) (hash : List Char → ℤ) :
    (Idempotent text ↔ Stable text) ∧ (m.eq o = true → m.hash hash = o.hash hash) ∧
      (HashAgrees text ↔ (Text.strip text ≠ [] → Canonical text)) ∧ (Recovered m ↔ Recoverable m) :=
  ⟨idempotent_iff text, fun h => hash_eq_of_eq h hash, hashAgrees_iff text, recovered_iff m⟩

/-- A text with `-hybrid` equals an id that has another hash; with `-hybrid` twice it is another id when it is normalised
again; and a base that ends in `-cpu` is not found again. -/
theorem normalisation_fails : ¬HashAgrees "model-8192-hybrid".toList ∧ ¬Idempotent "model-hybrid-hybrid".toList ∧
    ¬Recovered ⟨"model-cpu".toList, "model-cpu".toList, none, false, false, none, none, none⟩ := by
  refine ⟨fun h => ?_, fun h => ?_, fun h => ?_⟩
  · have hcanonical := (hashAgrees_iff _).1 h (by decide)
    exact (hcanonical.2 (by decide)).1 (by decide)
  · obtain ⟨-, hstable⟩ := (idempotent_iff _).1 h
    rw [if_neg (by decide)] at hstable
    exact hstable.2.1 (by decide)
  · have hfound := (recovered_iff _).1 h
    rw [Recoverable, if_neg (by decide)] at hfound
    exact ((hfound.2 rfl).2 rfl).1 (by decide)

end LlmGateway.ModelIds
