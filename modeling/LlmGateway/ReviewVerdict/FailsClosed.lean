import LlmGateway.ReviewVerdict.Grammar

/-!
# Blocking verdicts

A review with an explicit verdict that blocks ought not to advance. The gate-6 blocks keep to this among themselves:
the least priority wins. The grammars do not: the first line about the merits decides whatever comes behind it, without
one the first word of the vocabulary does, and the gate-6 blocks and the `VERDICT:` lines are not compared. A verdict
that advances may so stand in front of one that blocks, and `failsClosed_iff` says that nothing else goes wrong.
-/

namespace LlmGateway.ReviewVerdict

open Patterns

variable {U : Letters} {text : List Char}

/-! ## What is asked -/

/-- A token that blocks. -/
def ParsedVerdict.Blocks (v : ParsedVerdict) : Prop := v.token.isSome = true ∧ v.action = .blocked

/-- The verdicts of the merits lines, of the gate-6 blocks and of the `VERDICT:` lines. -/
def explicitVerdicts (U : Letters) (text : List Char) : List ParsedVerdict :=
  verdicts U (meritsRe U) text ++ (gate6Verdicts U text ++ verdicts U standaloneVerdictRe text)

/-- A review with an explicit verdict that blocks does not advance. -/
def FailsClosed (U : Letters) (text : List Char) : Prop :=
  (∃ v ∈ explicitVerdicts U text, v.Blocks) → (parseAnyReviewBody U text).action ≠ .advance

/-! ## When it is so -/

/-- The verdict advances only if none of the others blocks. -/
def ParsedVerdict.YieldsTo (v : ParsedVerdict) (others : List ParsedVerdict) : Prop :=
  v.action = .advance → ∀ w ∈ others, ¬ w.Blocks

/-- There is a gate-6 block, and the first that blocks has a token. -/
def GateAnswers (U : Letters) (text : List Char) : Prop :=
  gate6Verdicts U text ≠ [] ∧
    ∀ v, (gate6Verdicts U text).find? (fun v => v.action == .blocked) = some v → v.token.isSome = true

/-- No verdict that decides advances against an explicit one that blocks. The first merits line decides; without one,
the first word of the vocabulary that stands behind no scope check; without such a word, the gate-6 blocks if they all
advance, and the first `VERDICT:` line with a token if they give no answer. -/
def Unopposed (U : Letters) (text : List Char) : Prop :=
  match verdicts U (meritsRe U) text, subjectVerdicts U text with
  | v :: vs, _ => v.YieldsTo (vs ++ (gate6Verdicts U text ++ verdicts U standaloneVerdictRe text))
  | [], v :: _ => v.YieldsTo (gate6Verdicts U text ++ verdicts U standaloneVerdictRe text)
  | [], [] =>
    (GateAnswers U text → (∀ v ∈ gate6Verdicts U text, v.action = .advance) →
      ∀ w ∈ verdicts U standaloneVerdictRe text, ¬ w.Blocks) ∧
    (¬ GateAnswers U text → ∀ v vs, ((verdicts U standaloneVerdictRe text).filter fun v => v.token.isSome) = v :: vs →
      v.YieldsTo (gate6Verdicts U text ++ vs))

/-! ## Tokens -/

theorem classify_token (normalized : List Char) : (classify normalized).token.isSome = true := by
  unfold classify
  split
  · rfl
  split
  · rfl
  split <;> rfl

variable {raw : List Char} {v : ParsedVerdict} {vs : List ParsedVerdict}

theorem closedAdvanceAlias_token (h : closedAdvanceAlias U raw = some v) :
    v.token.isSome = true := by
  unfold closedAdvanceAlias at h
  split at h
  · cases h
  · simp only [Option.ite_none_left_eq_some] at h
    obtain ⟨-, -, heq⟩ := h
    cases heq
    rfl

theorem blockTokenWithTrailing_token {normalized : List Char}
    (h : blockTokenWithTrailing normalized = some v) : v.token.isSome = true := by
  obtain ⟨token, -, htoken⟩ := List.exists_of_findSome?_eq_some h
  split at htoken
  · cases htoken
  · cases htoken
    rfl
  · split at htoken
    · cases htoken
      rfl
    · cases htoken

theorem parseTokenFromRaw_token (h : Text.strip raw ≠ []) : (parseTokenFromRaw U raw).token.isSome = true := by
  simp only [parseTokenFromRaw, List.isEmpty_iff, if_neg h]
  split
  · exact blockTokenWithTrailing_token ‹_›
  · cases halias : closedAdvanceAlias U (Text.strip raw) with
    | none => exact classify_token _
    | some v => exact closedAdvanceAlias_token halias

theorem action_of_token_none (h : (parseTokenFromRaw U raw).token.isSome = false) :
    (parseTokenFromRaw U raw).action = .blocked := by
  by_cases hblank : Text.strip raw = []
  · simp [parseTokenFromRaw, hblank]
  · rw [parseTokenFromRaw_token hblank] at h
    cases h

theorem strip_ne_nil_of_tokenPattern (word : List Char → Pattern) (same : Char → Char → Bool)
    (hword : ∀ w, word w = .chars (w.map same)) (hsame : ∀ c d, same c d = true → Json.isSpace d = true → c ∉ ['A', 'R', 'S'])
    {c d : Cursor} (h : d ∈ outcomes (tokenPattern word) c) : Text.strip (c.upTo d) ≠ [] := by
  obtain ⟨p, hp, hd⟩ := mem_outcomes_oneOf.1 h
  obtain ⟨q, ps, rfl, hq⟩ : ∃ q ps, p = .chars (same q :: ps) ∧ q ∈ ['A', 'R', 'S'] := by
    rw [tokenWords, List.map_map] at hp
    simp only [List.map_cons, List.map_nil, List.mem_cons, List.not_mem_nil, or_false, hword, Function.comp_apply] at hp
    obtain rfl | rfl | rfl | rfl | rfl | rfl | rfl | rfl | rfl | rfl | rfl := hp <;> exact ⟨_, _, rfl, by decide⟩
  obtain ⟨x, s, heq, hx⟩ := head_of_mem_outcomes_chars hd
  rw [heq]
  intro hblank
  exact hsame q x hx ((Text.strip_eq_nil_iff.1 hblank) x List.mem_cons_self) hq

theorem not_isSpace_of_foldCase {c d : Char} (h : foldCase d = foldCase c) (hd : Json.isSpace d = true) :
    c ∉ ['A', 'R', 'S'] := by
  intro hc
  have hfold : foldCase c = 'a' ∨ foldCase c = 'r' ∨ foldCase c = 's' := by
    simp only [List.mem_cons, List.not_mem_nil, or_false] at hc
    obtain rfl | rfl | rfl := hc
    · exact .inl rfl
    · exact .inr (.inl rfl)
    · exact .inr (.inr rfl)
  rw [← h, foldCase, Json.toLower_of_isSpace hd] at hfold
  split at hfold
  · rename_i hi
    obtain rfl | rfl := hi <;> cases hd
  split at hfold
  · rename_i hs
    subst hs
    cases hd
  split at hfold
  · rename_i hk
    subst hk
    cases hd
  · obtain rfl | rfl | rfl := hfold <;> cases hd

theorem meritsVerdicts_token (h : v ∈ verdicts U (meritsRe U) text) : v.token.isSome = true := by
  obtain ⟨⟨c, d⟩, hm, rfl⟩ := List.mem_map.1 h
  obtain ⟨e, -, hd⟩ := mem_outcomes_both.1 (mem_outcomes_of_mem_finditer hm)
  obtain ⟨f, hf, hcaptured⟩ := mem_outcomes_captured rfl hd
  apply parseTokenFromRaw_token
  rw [hcaptured]
  exact strip_ne_nil_of_tokenPattern literalNoCase (fun c d => foldCase d == foldCase c) (fun _ => rfl)
    (fun c d h hd => not_isSpace_of_foldCase (eq_of_beq h) hd) hf

theorem subjectVerdicts_token (h : v ∈ subjectVerdicts U text) : v.token.isSome = true := by
  obtain ⟨⟨c, d⟩, hm, rfl⟩ := List.mem_map.1 h
  obtain ⟨e, -, hd⟩ := mem_outcomes_both.1 (mem_outcomes_of_mem_finditer (List.mem_of_mem_filter hm))
  obtain ⟨f, hf, hcaptured⟩ := mem_outcomes_captured rfl hd
  apply parseTokenFromRaw_token
  rw [hcaptured]
  refine strip_ne_nil_of_tokenPattern literal (fun c d => d == c) (fun _ => rfl) (fun c d h hd hc => ?_) hf
  rw [eq_of_beq h] at hd
  revert hd
  simp only [List.mem_cons, List.not_mem_nil, or_false] at hc
  obtain rfl | rfl | rfl := hc <;> decide

/-! ## The gate-6 blocks -/

/-- One verdict against the next. -/
def better (best w : ParsedVerdict) : ParsedVerdict :=
  if gate6VerdictPriority w < gate6VerdictPriority best then w else best

theorem priority_eq_zero_iff : gate6VerdictPriority v = 0 ↔ (v.action == .blocked) = true := by
  unfold gate6VerdictPriority
  cases v.action <;> decide

theorem foldl_better_mem (v : ParsedVerdict) (vs : List ParsedVerdict) : vs.foldl better v ∈ v :: vs := by
  induction vs generalizing v with
  | nil => exact List.mem_singleton_self v
  | cons w vs ih =>
    rw [List.foldl_cons]
    obtain hbest | hrest := List.mem_cons.1 (ih (better v w))
    · rw [hbest, better]
      split <;> simp
    · simp [hrest]

theorem foldl_better_le (v : ParsedVerdict) (vs : List ParsedVerdict) :
    ∀ w ∈ v :: vs, gate6VerdictPriority (vs.foldl better v) ≤ gate6VerdictPriority w := by
  induction vs generalizing v with
  | nil => simp
  | cons u vs ih =>
    have hbest := ih (better v u)
    rw [List.forall_mem_cons] at hbest
    have hstep : gate6VerdictPriority (better v u) ≤ gate6VerdictPriority v ∧
        gate6VerdictPriority (better v u) ≤ gate6VerdictPriority u := by
      unfold better
      split <;> omega
    rw [List.foldl_cons, List.forall_mem_cons, List.forall_mem_cons]
    exact ⟨hbest.1.trans hstep.1, hbest.1.trans hstep.2, hbest.2⟩

theorem foldl_better_of_find? {w : ParsedVerdict}
    (h : (v :: vs).find? (fun v => v.action == .blocked) = some w) : vs.foldl better v = w := by
  induction vs generalizing v with
  | nil =>
    rw [List.find?_cons] at h
    split at h
    · exact Option.some.inj h
    · cases h
  | cons u vs ih =>
    rw [List.foldl_cons]
    apply ih
    rw [List.find?_cons] at h
    split at h
    · rename_i hv
      have hkeep : better v u = v := if_neg (by rw [priority_eq_zero_iff.2 hv]; omega)
      rw [hkeep, List.find?_cons, hv]
      exact h
    · rename_i hv
      rw [List.find?_cons] at h
      split at h
      · rename_i hu
        have hpos : gate6VerdictPriority v ≠ 0 := fun hzero => by
          rw [priority_eq_zero_iff.1 hzero] at hv
          cases hv
        have htake : better v u = u := if_pos (by rw [priority_eq_zero_iff.2 hu]; omega)
        rw [htake, List.find?_cons, hu]
        exact h
      · rename_i hu
        have hnone : ((better v u).action == .blocked) = false := by
          unfold better
          split
          · exact hu
          · exact hv
        rw [List.find?_cons, hnone]
        exact h

theorem parseGate6Markdown_spec (U : Letters) (text : List Char) :
    ((parseGate6Markdown U text).action = .advance ↔
      gate6Verdicts U text ≠ [] ∧ ∀ v ∈ gate6Verdicts U text, v.action = .advance) ∧
    ((parseGate6Markdown U text).token.isSome = true ↔ GateAnswers U text) := by
  have htoken : ∀ v ∈ gate6Verdicts U text, v.token.isSome = false → v.action = .blocked := by
    intro v hv
    obtain hv | hv := List.mem_append.1 hv
    all_goals
      obtain ⟨m, -, rfl⟩ := List.mem_map.1 hv
      exact action_of_token_none
  unfold parseGate6Markdown GateAnswers
  cases hgate : gate6Verdicts U text with
  | nil => simp
  | cons v vs =>
    rw [hgate] at htoken
    have hmem := foldl_better_mem v vs
    have hle := foldl_better_le v vs
    change ((vs.foldl better v).action = .advance ↔ _) ∧ ((vs.foldl better v).token.isSome = true ↔ _)
    have htop : ∀ w : ParsedVerdict, gate6VerdictPriority w ≤ 2 ∧ (w.action = .advance ↔ gate6VerdictPriority w = 2) := by
      intro w
      unfold gate6VerdictPriority
      cases w.action <;> decide
    refine ⟨⟨fun h => ⟨List.cons_ne_nil _ _, fun w hw => ?_⟩, fun h => h.2 _ hmem⟩, fun h => ⟨List.cons_ne_nil _ _, ?_⟩,
      fun h => ?_⟩
    · have hbest := (htop _).2.1 h
      have hw' := hle w hw
      have := (htop w).1
      exact (htop w).2.2 (by omega)
    · intro w hw
      rw [← foldl_better_of_find? hw]
      exact h
    · by_contra hnone
      rw [Bool.not_eq_true] at hnone
      -- An answer without a token blocks, and is the first that does.
      have hblocked : ((vs.foldl better v).action == .blocked) = true := beq_iff_eq.2 (htoken _ hmem hnone)
      obtain ⟨w, hw⟩ := Option.isSome_iff_exists.1
        (List.find?_isSome.2 ⟨_, hmem, hblocked⟩ : ((v :: vs).find? fun v => v.action == .blocked).isSome = true)
      have hsome := h.2 w hw
      rw [← foldl_better_of_find? hw, hnone] at hsome
      cases hsome

/-! ## The whole text -/

theorem parseMeritsLine_eq (U : Letters) (text : List Char) : parseMeritsLine U text =
    ((verdicts U (meritsRe U) text).head?.or (subjectVerdicts U text).head?).getD
      ⟨none, .blocked, "unparseable_r_verdict"⟩ := by
  unfold parseMeritsLine
  rw [verdicts, List.head?_map, search]
  cases (finditer (meritsRe U) text).head? with
  | some m => rfl
  | none =>
    have hfirst : (subjectVerdicts U text).find? (fun v => v.token.isSome) = (subjectVerdicts U text).head? := by
      cases h : subjectVerdicts U text with
      | nil => rfl
      | cons v vs => rw [List.find?_cons, subjectVerdicts_token (h ▸ List.mem_cons_self), List.head?_cons]
    rw [hfirst]
    rfl

theorem parseAnyReviewBody_of_merits
    (h : verdicts U (meritsRe U) text = v :: vs) : parseAnyReviewBody U text = v := by
  have htoken : v.token.isSome = true := meritsVerdicts_token (h ▸ List.mem_cons_self)
  have hmerits : parseMeritsLine U text = v := by
    rw [parseMeritsLine_eq, h]
    rfl
  simp only [parseAnyReviewBody, hmerits, if_pos htoken]

theorem parseAnyReviewBody_of_subject
    (h : verdicts U (meritsRe U) text = []) (h' : subjectVerdicts U text = v :: vs) : parseAnyReviewBody U text = v := by
  have htoken : v.token.isSome = true := subjectVerdicts_token (h' ▸ List.mem_cons_self)
  have hmerits : parseMeritsLine U text = v := by
    rw [parseMeritsLine_eq, h, h']
    rfl
  simp only [parseAnyReviewBody, hmerits, if_pos htoken]

theorem parseAnyReviewBody_of_none (h : verdicts U (meritsRe U) text = []) (h' : subjectVerdicts U text = []) :
    parseAnyReviewBody U text =
      if (parseGate6Markdown U text).token.isSome then parseGate6Markdown U text
      else ((verdicts U standaloneVerdictRe text).filter fun v => v.token.isSome).head?.getD
        (parseGate6Markdown U text) := by
  have hmerits : parseMeritsLine U text = ⟨none, .blocked, "unparseable_r_verdict"⟩ := by
    rw [parseMeritsLine_eq, h, h']
    rfl
  simp only [parseAnyReviewBody, hmerits, Option.isSome_none, if_neg Bool.false_ne_true, List.head?_filter]

theorem yieldsTo_iff (front : List ParsedVerdict) {others : List ParsedVerdict} (hfront : ∀ w ∈ front, w.Blocks → w = v) :
    ((∃ w ∈ front ++ others, w.Blocks) → v.action ≠ .advance) ↔ v.YieldsTo others := by
  unfold ParsedVerdict.YieldsTo
  constructor
  · intro h hadvance w hw hblocks
    exact h ⟨w, List.mem_append_right _ hw, hblocks⟩ hadvance
  · rintro h ⟨w, hw, hblocks⟩ hadvance
    obtain hw | hw := List.mem_append.1 hw
    · have hblocked := hblocks.2
      rw [hfront w hw hblocks, hadvance] at hblocked
      cases hblocked
    · exact h hadvance w hw hblocks

/-- **Failing closed.** A review with an explicit verdict that blocks does not advance, exactly if no verdict that
decides advances against one that blocks. -/
theorem failsClosed_iff (U : Letters) (text : List Char) : FailsClosed U text ↔ Unopposed U text := by
  unfold FailsClosed Unopposed explicitVerdicts
  cases hmerits : verdicts U (meritsRe U) text with
  | cons v vs =>
    rw [parseAnyReviewBody_of_merits hmerits]
    exact yieldsTo_iff [v] fun w hw _ => List.mem_singleton.1 hw
  | nil =>
    cases hsubject : subjectVerdicts U text with
    | cons v vs =>
      rw [parseAnyReviewBody_of_subject hmerits hsubject]
      exact yieldsTo_iff [] fun w hw => by cases hw
    | nil =>
      obtain ⟨hadvance, htoken⟩ := parseGate6Markdown_spec U text
      rw [parseAnyReviewBody_of_none hmerits hsubject, List.nil_append]
      by_cases hanswers : GateAnswers U text
      · rw [if_pos (htoken.2 hanswers), Ne, hadvance]
        constructor
        · refine fun h => ⟨fun _ hall w hw hblocks => ?_, fun hnot => (hnot hanswers).elim⟩
          exact h ⟨w, List.mem_append_right _ hw, hblocks⟩ ⟨hanswers.1, hall⟩
        · rintro ⟨h, -⟩ ⟨w, hw, hblocks⟩ ⟨-, hall⟩
          obtain hw | hw := List.mem_append.1 hw
          · have hblocked := hblocks.2
            rw [hall w hw] at hblocked
            cases hblocked
          · exact h hanswers hall w hw hblocks
      · have hnone : (parseGate6Markdown U text).token.isSome = false :=
          Bool.not_eq_true _ ▸ fun h => hanswers (htoken.1 h)
        rw [hnone, if_neg Bool.false_ne_true]
        cases hlines : (verdicts U standaloneVerdictRe text).filter fun v => v.token.isSome with
        | nil =>
          have hgate : (parseGate6Markdown U text).action ≠ .advance := by
            rw [Ne, hadvance]
            rintro ⟨hne, hall⟩
            refine hanswers ⟨hne, fun v hv => ?_⟩
            have hblocked : (v.action == .blocked) = true := by simpa only using List.find?_some hv
            rw [hall v (List.mem_of_find?_eq_some hv)] at hblocked
            cases hblocked
          exact iff_of_true (fun _ => hgate) ⟨fun h => (hanswers h).elim, fun _ v vs h => (nomatch h)⟩
        | cons v vs =>
          have hblocks : ∀ w, w.Blocks → (w ∈ verdicts U standaloneVerdictRe text ↔ w ∈ v :: vs) := by
            intro w hw
            rw [← hlines, List.mem_filter, and_iff_left hw.1]
          have hexplicit : (∃ w ∈ gate6Verdicts U text ++ verdicts U standaloneVerdictRe text, w.Blocks) ↔
              ∃ w ∈ [v] ++ (gate6Verdicts U text ++ vs), w.Blocks := by
            refine exists_congr fun w => and_congr_left fun hw => ?_
            rw [List.mem_append, hblocks w hw, List.mem_append, List.mem_append, List.mem_singleton, List.mem_cons]
            exact or_left_comm
          rw [List.head?_cons, Option.getD_some, hexplicit, yieldsTo_iff _ fun w hw _ => List.mem_singleton.1 hw]
          constructor
          · refine fun h => ⟨fun hgate => (hanswers hgate).elim, fun _ u us heq => ?_⟩
            cases heq
            exact h
          · exact fun h => h.2 hanswers v vs rfl

/-- `\w` and `str.upper` on ASCII. -/
def asciiLetters : Letters := ⟨fun c => c.isAlphanum || c == '_', fun c => [c.toUpper], fun _ _ => rfl, fun _ _ => rfl⟩

/-- A gate-6 block that ratifies on a condition blocks, and its first word is taken for a merits line. -/
theorem conditional_ratify_advances :
    ¬ FailsClosed asciiLetters "**Verdict:** **RATIFY — conditional on AC3**".toList := by
  intro h
  refine h ⟨⟨some "RATIFY — CONDITIONAL ON AC3".toList, .blocked, "unknown_verdict"⟩, ?_, rfl, rfl⟩ ?_
  · decide +kernel
  · decide +kernel

end LlmGateway.ReviewVerdict
