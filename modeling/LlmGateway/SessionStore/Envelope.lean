import LlmGateway.Foundations.Utf8
import LlmGateway.SessionStore.Transcript

/-!
# The envelope of a session

`seal` puts the meta of a session, its rollup, its index, its last turns and its attachments in front of the request.
While the prompt is over the budget, one turn less is kept, down to a floor; what is over the budget at the floor is
refused. Fewer turns are never more bytes (`blocksSize_mono`), so that the first number of turns that fits is the
largest, and nothing fits when the floor does not (`seal_spec`).

A turn that is over its own cap is cut at a character, and a marker says where the rest is (`capTurnBody_spec`).
-/

namespace LlmGateway.SessionStore

/-! ## The session -/

/-- The fields of `Budget` that are read. -/
structure Budget where
  total : ℤ := 32 * 1024
  perTurnCap : ℤ := 4 * 1024
  indexLineCap : ℤ := 60

structure AttachmentRef where
  turn : ℤ
  name : List Char
  ref : List Char
  media : List Char
  note : List Char := []

structure SessionForSeal where
  sessionId : List Char
  turnCount : ℤ
  transcriptUri : List Char
  rollupText : List Char
  indexLines : List (List Char)
  turns : List Turn
  attachments : List AttachmentRef
  refs : List (List Char)
  archiveUri : List Char := "none".toList
  sealedAtTurn : Option ℤ := none

structure SealResult where
  promptText : List Char
  kUsed : ℤ
  sizeBytes : ℤ

/-- `EnvelopeOverBudget` and `InvalidRefError`. -/
inductive SealError where
  | overBudget (sizeBytes budgetTotal kUsed : ℤ)
  | invalidRef (ref : List Char)

def kFloor : ℤ := 2

/-- The check of `_assert_cortex_refs`. -/
def isCortexRef (ref : List Char) : Bool := "cortex://".toList.isPrefixOf ref

def assertCortexRefs : List (List Char) → Except SealError Unit
  | [] => .ok ()
  | ref :: refs => if isCortexRef ref then assertCortexRefs refs else .error (.invalidRef ref)

def utf8Size (text : List Char) : ℕ := (Utf8.encode text).length

/-! ## The blocks -/

/-- `_tail`: `lines[-cap:]` is the last lines for a positive cap, and all but the first ones for any other. -/
def tail (lines : List (List Char)) (cap : ℤ) : List Char :=
  ['\n'].intercalate (lines.drop (if 0 < cap then lines.length - cap.toNat else (-cap).toNat))

def xml (tag body : List Char) : List Char :=
  ("<".toList ++ tag ++ ">\n".toList) ++ body ++ ("\n</".toList ++ tag ++ ">".toList)

/-- A number in a text. -/
def decimal (n : ℤ) : List Char := (toString n).toList

def metaBlock (s : SessionForSeal) : List Char :=
  "<session_meta session_id=\"".toList ++ s.sessionId ++ "\" turn_count=\"".toList ++ decimal s.turnCount ++
    "\" sealed_at_turn=\"".toList ++ decimal (s.sealedAtTurn.getD s.turnCount) ++ "\" transcript=\"".toList ++
    s.transcriptUri ++ "\" archive=\"".toList ++ s.archiveUri ++ "\"/>".toList

def instructionsBlock (transcriptUri : List Char) : List Char :=
  ("<session_instructions>\n" ++
    "You are continuing an ongoing session. Below: Rollup (compressed arc), Index (one\n" ++
    "line per archived turn), Live (verbatim recent turns), then the current request.\n" ++
    "To open any original turn, call:\n" ++
    "  fs(op=\"md_read\", path=\"").toList ++ transcriptUri ++
  ("\", section=\"Turn 0004 — assistant\")\n" ++
    "Copy the section string exactly as given in Index/Live. Open originals whenever a\n" ++
    "distilled line is insufficient for the current request. Do not echo or summarize\n" ++
    "this envelope in your reply; answer the current request directly.\n" ++
    "</session_instructions>").toList

/-- `_TRUNC_MARKER` of a turn. -/
def truncMarker (t : Turn) : List Char :=
  "[…truncated — open original: Turn ".toList ++ padded t.n ++ " — ".toList ++ t.role ++ "]".toList

/-- The loop of `_cap_turn_body`: back to behind a byte that is not inside of a character. -/
def cutBack (encoded : List UInt8) : ℕ → ℕ
  | 0 => 0
  | cut + 1 => if Utf8.isContinuation (encoded.getD cut 0) then cutBack encoded cut else cut + 1

def capTurnBody (t : Turn) (perTurnCap : ℤ) : List Char :=
  let encoded := Utf8.encode t.body
  if (encoded.length : ℤ) ≤ perTurnCap then t.body
  else
    let room := perTurnCap - utf8Size (truncMarker t) - 1
    if room < 1 then truncMarker t
    else ((Utf8.decodeWith Utf8.ignore (encoded.take (cutBack encoded room.toNat))).getD []) ++ '\n' :: truncMarker t

def renderLiveTurn (W : WordClass) (t : Turn) (perTurnCap : ℤ) : List Char :=
  "### Turn ".toList ++ padded t.n ++ " — ".toList ++ t.role ++ '\n' :: wrapFenced W (capTurnBody t perTurnCap)

def renderLiveBlock (W : WordClass) (turns : List Turn) (perTurnCap : ℤ) : List Char :=
  ['\n', '\n'].intercalate (turns.map fun t => renderLiveTurn W t perTurnCap)

/-- A line of `_attachments_block`. -/
def attachmentLine (att : AttachmentRef) : List Char :=
  "<attachment turn=\"".toList ++ padded att.turn ++ "\" name=\"".toList ++ att.name ++ "\" ref=\"".toList ++ att.ref ++
    "\" media=\"".toList ++ att.media ++ "\"".toList ++
    (if att.note.isEmpty then [] else " note=\"".toList ++ att.note ++ "\"".toList) ++ "/>".toList

def attachmentsBlock (attachments : List AttachmentRef) : List Char :=
  ['\n'].intercalate
    ("<session_attachments>".toList :: attachments.map attachmentLine ++ ["</session_attachments>".toList])

def currentRequestMd (msg : List Char) : List Char := "## Current request\n\n".toList ++ msg ++ "\n".toList

def wrapEnvelope (blocks : List (List Char)) : List Char :=
  "<session_envelope version=\"1\">\n".toList ++ ['\n'].intercalate blocks ++ "\n</session_envelope>\n\n".toList

def liveTurns (s : SessionForSeal) (k : ℤ) : List Turn :=
  if k ≤ 0 ∨ s.turnCount ≤ 1 then []
  else
    let live := if k ≤ s.turns.length then s.turns.drop (s.turns.length - k.toNat) else s.turns
    live.filter fun t => t.n != s.turnCount

/-- The block of the live turns, when there are any. -/
def liveBlocks (W : WordClass) (s : SessionForSeal) (k : ℤ) (budget : Budget) : List (List Char) :=
  match liveTurns s k with
  | [] => []
  | t :: live => [xml "session_live".toList (renderLiveBlock W (t :: live) budget.perTurnCap)]

def buildBlocks (W : WordClass) (s : SessionForSeal) (k : ℤ) (budget : Budget) : List (List Char) :=
  [metaBlock s, instructionsBlock s.transcriptUri] ++
    (if s.rollupText.isEmpty then [] else [xml "session_rollup".toList s.rollupText]) ++
    (if s.indexLines.isEmpty then [] else [xml "session_index".toList (tail s.indexLines budget.indexLineCap)]) ++
    liveBlocks W s k budget ++ (if s.attachments.isEmpty then [] else [attachmentsBlock s.attachments])

def blocksSize (blocks : List (List Char)) : ℕ := utf8Size (wrapEnvelope blocks)

/-! ## `seal` -/

/-- The loop of `seal`, with as many turns as it may take off. -/
def shrink (fits : ℤ → Bool) : ℕ → ℤ → ℤ
  | 0, k => k
  | n + 1, k => if fits k then k else shrink fits n (k - 1)

/-- `text.index(part)`. -/
def indexOf? (part text : List Char) : Option ℕ :=
  (List.range (text.length + 1)).find? fun i => part.isPrefixOf (text.drop i)

/-- The size of the prompt with the last `k` turns. -/
def promptSize (W : WordClass) (s : SessionForSeal) (msg : List Char) (budget : Budget) (k : ℤ) : ℕ :=
  blocksSize (buildBlocks W s k budget) + utf8Size (currentRequestMd msg)

/-- The entry `k`, lifted to the floor for a session that is longer than it. -/
def entryK (s : SessionForSeal) (k : ℤ) : ℤ := if kFloor < s.turnCount then max k kFloor else k

/-- `seal` behind its loop. -/
def sealAt (W : WordClass) (s : SessionForSeal) (msg : List Char) (budget : Budget) (kUsed : ℤ) :
    Except SealError SealResult :=
  let size := promptSize W s msg budget kUsed
  let prompt := wrapEnvelope (buildBlocks W s kUsed budget) ++ currentRequestMd msg
  if budget.total < size then .error (.overBudget size budget.total kUsed)
  else
    match indexOf? msg prompt with
    | none => .error (.overBudget size budget.total kUsed)
    | some i =>
      if (prompt.drop i).take msg.length = msg then .ok ⟨prompt, kUsed, utf8Size prompt⟩
      else .error (.overBudget size budget.total kUsed)

/-- The number of turns behind the loop. -/
def shrunkK (W : WordClass) (s : SessionForSeal) (msg : List Char) (k : ℤ) (budget : Budget) : ℤ :=
  shrink (fun k => promptSize W s msg budget k ≤ budget.total) (entryK s k - kFloor).toNat (entryK s k)

/-- `seal`. -/
def sealSession (W : WordClass) (s : SessionForSeal) (msg : List Char) (k : ℤ := 6) (budget : Option Budget := none) :
    Except SealError SealResult := do
  assertCortexRefs s.refs
  assertCortexRefs (s.attachments.map AttachmentRef.ref)
  sealAt W s msg (budget.getD {}) (shrunkK W s msg k (budget.getD {}))

/-! ## Sizes -/

variable {W : WordClass} {s : SessionForSeal} {msg : List Char} {budget : Budget} {k : ℤ}

@[simp] theorem utf8Size_nil : utf8Size [] = 0 := rfl

@[simp] theorem utf8Size_append (a b : List Char) : utf8Size (a ++ b) = utf8Size a + utf8Size b := by
  rw [utf8Size, Utf8.encode_append, List.length_append, utf8Size, utf8Size]

theorem utf8Size_cons (c : Char) (a : List Char) : utf8Size (c :: a) = utf8Size [c] + utf8Size a :=
  utf8Size_append [c] a

theorem utf8Size_middle_mono (front back : List Char) {a b : List Char} (h : utf8Size a ≤ utf8Size b) :
    utf8Size (front ++ a ++ back) ≤ utf8Size (front ++ b ++ back) := by
  simp only [utf8Size_append]
  omega

/-- The bytes of texts with a separator behind each. -/
def weight (sep : List Char) : List (List Char) → ℕ
  | [] => 0
  | a :: l => utf8Size a + utf8Size sep + weight sep l

theorem weight_append (sep : List Char) (l l' : List (List Char)) :
    weight sep (l ++ l') = weight sep l + weight sep l' := by
  induction l with
  | nil => simp [weight]
  | cons a l ih =>
    rw [List.cons_append, weight, weight, ih]
    omega

theorem weight_middle_mono {sep : List Char} (front back : List (List Char)) {l l' : List (List Char)}
    (h : weight sep l ≤ weight sep l') : weight sep (front ++ l ++ back) ≤ weight sep (front ++ l' ++ back) := by
  simp only [weight_append]
  omega

theorem utf8Size_intercalate (sep : List Char) {l : List (List Char)} (h : l ≠ []) :
    utf8Size (sep.intercalate l) + utf8Size sep = weight sep l := by
  induction l with
  | nil => exact (h rfl).elim
  | cons a l ih =>
    cases l with
    | nil => simp [weight]
    | cons b l =>
      rw [List.intercalate_cons_of_ne_nil (List.cons_ne_nil b l), utf8Size_append, utf8Size_append, weight,
        ← ih (List.cons_ne_nil b l)]
      omega

theorem utf8Size_intercalate_mono {sep : List Char} {l l' : List (List Char)} (h : weight sep l ≤ weight sep l') :
    utf8Size (sep.intercalate l) ≤ utf8Size (sep.intercalate l') := by
  cases l with
  | nil => exact Nat.zero_le _
  | cons a l =>
    have hleft := utf8Size_intercalate sep (List.cons_ne_nil a l)
    cases l' with
    | nil =>
      rw [← hleft, weight] at h
      simp only [List.intercalate_nil, utf8Size_nil]
      omega
    | cons b l' =>
      have hright := utf8Size_intercalate sep (List.cons_ne_nil b l')
      omega

/-! ## Fewer turns -/

theorem liveTurns_isSuffix {j : ℤ} (h : j ≤ k) : liveTurns s j <:+ liveTurns s k := by
  unfold liveTurns
  by_cases hj : j ≤ 0 ∨ s.turnCount ≤ 1
  · rw [if_pos hj]
    exact List.nil_suffix
  have hk : ¬ (k ≤ 0 ∨ s.turnCount ≤ 1) := by omega
  have hlive : (if j ≤ s.turns.length then s.turns.drop (s.turns.length - j.toNat) else s.turns) <:+
      if k ≤ s.turns.length then s.turns.drop (s.turns.length - k.toNat) else s.turns := by
    by_cases hfew : k ≤ s.turns.length
    · rw [if_pos hfew, if_pos (h.trans hfew)]
      exact List.drop_suffix_drop_left _ (by omega)
    · rw [if_neg hfew]
      split
      · exact List.drop_suffix _ _
      · exact List.suffix_rfl
  simp only [if_neg hj, if_neg hk]
  exact hlive.filter _

theorem weight_liveBlocks_mono (budget : Budget) {j : ℤ} (h : j ≤ k) :
    weight ['\n'] (liveBlocks W s j budget) ≤ weight ['\n'] (liveBlocks W s k budget) := by
  obtain ⟨front, hfront⟩ := liveTurns_isSuffix (s := s) h
  unfold liveBlocks
  cases hj : liveTurns s j with
  | nil => exact Nat.zero_le _
  | cons t live =>
    rw [hj] at hfront
    cases hk : liveTurns s k with
    | nil => simp [hk] at hfront
    | cons u rest =>
      rw [hk] at hfront
      have hbody : utf8Size (renderLiveBlock W (t :: live) budget.perTurnCap) ≤
          utf8Size (renderLiveBlock W (u :: rest) budget.perTurnCap) := by
        apply utf8Size_intercalate_mono
        rw [← hfront, List.map_append, weight_append]
        omega
      exact Nat.add_le_add_right (Nat.add_le_add_right (utf8Size_middle_mono _ _ hbody) _) _

theorem promptSize_mono (W : WordClass) (s : SessionForSeal) (msg : List Char) (budget : Budget) {j : ℤ}
    (h : j ≤ k) : promptSize W s msg budget j ≤ promptSize W s msg budget k := by
  have hblocks : weight ['\n'] (buildBlocks W s j budget) ≤ weight ['\n'] (buildBlocks W s k budget) :=
    weight_middle_mono _ _ (weight_liveBlocks_mono budget h)
  have henvelope : blocksSize (buildBlocks W s j budget) ≤ blocksSize (buildBlocks W s k budget) :=
    utf8Size_middle_mono _ _ (utf8Size_intercalate_mono hblocks)
  exact Nat.add_le_add_right henvelope _

theorem ne_of_mem_liveTurns {t : Turn} (h : t ∈ liveTurns s k) : t.n ≠ s.turnCount := by
  unfold liveTurns at h
  split at h
  · cases h
  · exact bne_iff_ne.1 (List.mem_filter.1 h).2

/-! ## The loop -/

theorem shrink_spec (fits : ℤ → Bool) (n : ℕ) (k : ℤ) : k - n ≤ shrink fits n k ∧ shrink fits n k ≤ k ∧
    (fits (shrink fits n k) = true ∨ shrink fits n k = k - n) ∧
    ∀ j, shrink fits n k < j → j ≤ k → fits j = false := by
  induction n generalizing k with
  | zero =>
    refine ⟨by simp [shrink], le_rfl, .inr (by simp [shrink]), fun j hj hk => ?_⟩
    rw [shrink] at hj
    omega
  | succ n ih =>
    rw [shrink]
    split
    · rename_i hfits
      exact ⟨by omega, le_rfl, .inl hfits, fun j hj hk => by omega⟩
    · rename_i hfits
      obtain ⟨hlow, hhigh, hstop, hnone⟩ := ih (k - 1)
      refine ⟨by omega, by omega, hstop.imp_right fun h => by omega, fun j hj hk => ?_⟩
      by_cases hj' : j = k
      · rw [hj']
        exact Bool.not_eq_true _ ▸ hfits
      · exact hnone j hj (by omega)

/-! ## What is asked of `seal` -/

/-- The prompt with the last `k` turns is within the budget. -/
def Fits (W : WordClass) (s : SessionForSeal) (msg : List Char) (budget : Budget) (k : ℤ) : Prop :=
  (promptSize W s msg budget k : ℤ) ≤ budget.total

/-- The numbers of turns from the floor to the entry, and the entry itself. -/
def Admissible (s : SessionForSeal) (k j : ℤ) : Prop := j = entryK s k ∨ kFloor ≤ j ∧ j ≤ entryK s k

/-- The smallest admissible number. -/
def leastK (s : SessionForSeal) (k : ℤ) : ℤ := min kFloor (entryK s k)

/-- The references of the session are cortex references. -/
def CortexRefs (s : SessionForSeal) : Prop :=
  ∀ ref ∈ s.refs ++ s.attachments.map AttachmentRef.ref, isCortexRef ref = true

/-- What is asked of a prompt. -/
structure Sealed (W : WordClass) (s : SessionForSeal) (msg : List Char) (k : ℤ) (budget : Budget) (ending : List Char)
    (r : SealResult) : Prop where
  size : r.sizeBytes = utf8Size r.promptText
  within : r.sizeBytes ≤ budget.total
  ends : ending <:+ r.promptText
  envelope : r.promptText = wrapEnvelope (buildBlocks W s r.kUsed budget) ++ currentRequestMd msg
  /-- The request is no turn of the envelope. -/
  live : ∀ t ∈ liveTurns s r.kUsed, t.n ≠ s.turnCount
  admissible : Admissible s k r.kUsed
  largest : ∀ j, Admissible s k j → Fits W s msg budget j → j ≤ r.kUsed

/-- What is asked of `seal`, when prompts are to end so. -/
structure SealSpec (W : WordClass) (s : SessionForSeal) (msg : List Char) (k : ℤ) (budget : Option Budget)
    (ending : List Char) : Prop where
  sealed : ∀ r, sealSession W s msg k budget = .ok r → Sealed W s msg k (budget.getD {}) ending r
  returns : (∃ r, sealSession W s msg k budget = .ok r) ↔
    CortexRefs s ∧ Fits W s msg (budget.getD {}) (leastK s k)
  over_budget : (∃ size total kUsed, sealSession W s msg k budget = .error (.overBudget size total kUsed)) ↔
    CortexRefs s ∧ ¬ Fits W s msg (budget.getD {}) (leastK s k)
  invalid_ref : (∃ ref, sealSession W s msg k budget = .error (.invalidRef ref)) ↔ ¬ CortexRefs s

/-- What is asked of a turn's body. -/
structure Capped (t : Turn) (perTurnCap : ℤ) (body : List Char) : Prop where
  verbatim : (utf8Size t.body : ℤ) ≤ perTurnCap → body = t.body
  cut : perTurnCap < utf8Size t.body →
    body = truncMarker t ∨ ∃ ps, ps <+: t.body ∧ body = ps ++ '\n' :: truncMarker t
  within : perTurnCap < utf8Size t.body → (utf8Size (truncMarker t) : ℤ) ≤ perTurnCap →
    (utf8Size body : ℤ) ≤ perTurnCap

/-! ## The body of a turn -/

theorem cutBack_le (encoded : List UInt8) (cut : ℕ) : cutBack encoded cut ≤ cut := by
  induction cut with
  | zero => exact le_rfl
  | succ cut ih =>
    rw [cutBack]
    split
    · omega
    · exact le_rfl

theorem cutBack_spec (encoded : List UInt8) (cut : ℕ) : cutBack encoded cut = 0 ∨
    ∃ i, cutBack encoded cut = i + 1 ∧ Utf8.isContinuation (encoded.getD i 0) = false := by
  induction cut with
  | zero => exact .inl rfl
  | succ cut ih =>
    rw [cutBack]
    split
    · exact ih
    · exact .inr ⟨cut, rfl, Bool.not_eq_true _ ▸ ‹_›⟩

theorem exists_prefix_cutBack (cs : List Char) {cut : ℕ} (h : cut ≤ (Utf8.encode cs).length) :
    ∃ ps, ps <+: cs ∧ utf8Size ps ≤ cut ∧
      Utf8.decodeWith Utf8.ignore ((Utf8.encode cs).take (cutBack (Utf8.encode cs) cut)) = some ps := by
  have hle := cutBack_le (Utf8.encode cs) cut
  obtain hzero | ⟨i, hi, hstart⟩ := cutBack_spec (Utf8.encode cs) cut
  · refine ⟨[], List.nil_prefix, Nat.zero_le _, ?_⟩
    rw [hzero, List.take_zero, Utf8.decodeWith]
  · have hlt : i < (Utf8.encode cs).length := by omega
    rw [List.getD_eq_getElem?_getD, List.getElem?_eq_getElem hlt, Option.getD_some,
      Utf8.isContinuation_getElem_encode] at hstart
    obtain ⟨ps, qs, rfl, hlen⟩ := hstart
    cases qs with
    | nil =>
      rw [List.append_nil] at hlt
      omega
    | cons c qs =>
      rw [hi, ← hlen, Utf8.decodeWith_ignore_take]
      have hfront : utf8Size ps = i := hlen
      refine ⟨_, ?_, ?_, rfl⟩
      · split
        · exact ⟨qs, by rw [List.append_assoc, List.singleton_append]⟩
        · exact List.prefix_append _ _
      · split
        · rename_i hone
          have hlast : utf8Size [c] = 1 := by
            rw [utf8Size, Utf8.encode_cons, Utf8.encode_nil, List.append_nil, String.length_utf8EncodeChar, hone]
          rw [utf8Size_append, hlast]
          omega
        · omega

/-- **A capped body** is a prefix of the body with the marker behind it, within the cap if the marker is. -/
theorem capTurnBody_spec (t : Turn) (perTurnCap : ℤ) : Capped t perTurnCap (capTurnBody t perTurnCap) := by
  have hshort : (utf8Size t.body : ℤ) ≤ perTurnCap → capTurnBody t perTurnCap = t.body := fun h => if_pos h
  have hlong : perTurnCap < utf8Size t.body → capTurnBody t perTurnCap = truncMarker t ∨
      ∃ ps, ps <+: t.body ∧ capTurnBody t perTurnCap = ps ++ '\n' :: truncMarker t ∧
        (utf8Size ps : ℤ) ≤ perTurnCap - utf8Size (truncMarker t) - 1 := by
    intro h
    have hnot : ¬ ((Utf8.encode t.body).length : ℤ) ≤ perTurnCap := not_le.2 h
    simp only [capTurnBody, if_neg hnot]
    by_cases hroom : perTurnCap - utf8Size (truncMarker t) - 1 < 1
    · exact .inl (if_pos hroom)
    · right
      rw [if_neg hroom]
      obtain ⟨ps, hps, hsize, hread⟩ := exists_prefix_cutBack t.body
        (show (perTurnCap - utf8Size (truncMarker t) - 1).toNat ≤ (Utf8.encode t.body).length by omega)
      exact ⟨ps, hps, by rw [hread, Option.getD_some], by omega⟩
  refine ⟨hshort, fun h => ?_, fun h hmarker => ?_⟩
  · exact (hlong h).imp_right fun ⟨ps, hps, hbody, _⟩ => ⟨ps, hps, hbody⟩
  · obtain hbody | ⟨ps, -, hbody, hsize⟩ := hlong h
    · rw [hbody]
      exact hmarker
    · have hnewline : utf8Size ['\n'] = 1 := rfl
      rw [hbody, utf8Size_append, utf8Size_cons, hnewline]
      omega

/-! ## `seal` -/

theorem assertCortexRefs_eq_ok {refs : List (List Char)} :
    assertCortexRefs refs = .ok () ↔ ∀ ref ∈ refs, isCortexRef ref = true := by
  induction refs with
  | nil => simp [assertCortexRefs]
  | cons ref refs ih =>
    rw [assertCortexRefs, List.forall_mem_cons, ← ih]
    split <;> simp [*]

theorem assertCortexRefs_eq_error {refs : List (List Char)} {e : SealError} (h : assertCortexRefs refs = .error e) :
    ∃ ref ∈ refs, isCortexRef ref = false ∧ e = .invalidRef ref := by
  induction refs with
  | nil => cases h
  | cons ref refs ih =>
    rw [assertCortexRefs] at h
    split at h
    · obtain ⟨other, hother, hbad⟩ := ih h
      exact ⟨other, List.mem_cons_of_mem _ hother, hbad⟩
    · cases h
      exact ⟨ref, List.mem_cons_self, Bool.not_eq_true _ ▸ ‹_›, rfl⟩

theorem indexOf?_eq_some {part text : List Char} (h : part <:+: text) :
    ∃ i, indexOf? part text = some i ∧ (text.drop i).take part.length = part := by
  obtain ⟨front, back, rfl⟩ := h
  have hsome : (indexOf? part (front ++ part ++ back)).isSome = true := by
    rw [indexOf?, List.find?_isSome]
    refine ⟨front.length, List.mem_range.2 (by simp only [List.length_append]; omega), ?_⟩
    rw [List.append_assoc, List.drop_left, List.isPrefixOf_iff_prefix]
    exact List.prefix_append _ _
  obtain ⟨i, hi⟩ := Option.isSome_iff_exists.1 hsome
  refine ⟨i, hi, ?_⟩
  rw [indexOf?] at hi
  have hprefix : part <+: (front ++ part ++ back).drop i :=
    List.isPrefixOf_iff_prefix.1 (by simpa only using List.find?_some hi)
  exact (List.prefix_iff_eq_take.1 hprefix).symm

theorem ending_isSuffix (blocks : List (List Char)) (msg : List Char) :
    msg ++ ['\n'] <:+ wrapEnvelope blocks ++ currentRequestMd msg := by
  have hrequest : currentRequestMd msg = "## Current request\n\n".toList ++ (msg ++ ['\n']) := List.append_assoc ..
  exact ⟨wrapEnvelope blocks ++ "## Current request\n\n".toList, by rw [hrequest, List.append_assoc]⟩

theorem sealAt_eq (W : WordClass) (s : SessionForSeal) (msg : List Char) (budget : Budget) (k : ℤ) :
    sealAt W s msg budget k =
      if budget.total < promptSize W s msg budget k then
        .error (.overBudget (promptSize W s msg budget k) budget.total k)
      else .ok ⟨wrapEnvelope (buildBlocks W s k budget) ++ currentRequestMd msg, k,
        utf8Size (wrapEnvelope (buildBlocks W s k budget) ++ currentRequestMd msg)⟩ := by
  have hinfix : msg <:+: wrapEnvelope (buildBlocks W s k budget) ++ currentRequestMd msg :=
    (List.prefix_append msg ['\n']).isInfix.trans (ending_isSuffix _ msg).isInfix
  obtain ⟨i, hi, htake⟩ := indexOf?_eq_some hinfix
  simp only [sealAt, hi, htake, if_true]

theorem shrunkK_spec (W : WordClass) (s : SessionForSeal) (msg : List Char) (k : ℤ) (budget : Budget) :
    Admissible s k (shrunkK W s msg k budget) ∧
      (∀ j, Admissible s k j → Fits W s msg budget j → j ≤ shrunkK W s msg k budget) ∧
      (Fits W s msg budget (shrunkK W s msg k budget) ↔ Fits W s msg budget (leastK s k)) := by
  obtain ⟨hlow, hhigh, hstop, hnone⟩ := shrink_spec
    (fun k => promptSize W s msg budget k ≤ budget.total) (entryK s k - kFloor).toNat (entryK s k)
  change entryK s k - _ ≤ shrunkK W s msg k budget at hlow
  change shrunkK W s msg k budget ≤ _ at hhigh
  change _ ∨ shrunkK W s msg k budget = _ at hstop
  have hleast : leastK s k ≤ shrunkK W s msg k budget := by
    rw [leastK]
    omega
  refine ⟨?_, fun j hj hfits => ?_, fun hfits => ?_, fun hfits => ?_⟩
  · rw [Admissible]
    omega
  · have hle : j ≤ entryK s k := by
      obtain rfl | ⟨-, hle⟩ := hj
      · exact le_rfl
      · exact hle
    by_contra hlt
    have hmore : decide ((promptSize W s msg budget j : ℤ) ≤ budget.total) = false := hnone j (not_le.1 hlt) hle
    exact of_decide_eq_false hmore hfits
  · exact le_trans (Int.ofNat_le.2 (promptSize_mono W s msg budget hleast)) hfits
  · obtain hstop | hstop := hstop
    · have hwithin : decide ((promptSize W s msg budget (shrunkK W s msg k budget) : ℤ) ≤ budget.total) = true := hstop
      exact (of_decide_eq_true hwithin : (promptSize W s msg budget (shrunkK W s msg k budget) : ℤ) ≤ budget.total)
    · have heq : shrunkK W s msg k budget = leastK s k := by
        rw [leastK]
        omega
      rw [heq]
      exact hfits

theorem sealSession_eq (W : WordClass) (s : SessionForSeal) (msg : List Char) (k : ℤ) (budget : Option Budget) :
    (CortexRefs s ∧ sealSession W s msg k budget =
      sealAt W s msg (budget.getD {}) (shrunkK W s msg k (budget.getD {}))) ∨
    (¬ CortexRefs s ∧ ∃ ref, sealSession W s msg k budget = .error (.invalidRef ref)) := by
  rw [CortexRefs, List.forall_mem_append, ← assertCortexRefs_eq_ok, ← assertCortexRefs_eq_ok, sealSession]
  cases hrefs : assertCortexRefs s.refs with
  | error e =>
    obtain ⟨ref, -, -, rfl⟩ := assertCortexRefs_eq_error hrefs
    exact .inr ⟨fun h => (nomatch h.1), ref, rfl⟩
  | ok u =>
    cases hatts : assertCortexRefs (s.attachments.map AttachmentRef.ref) with
    | error e =>
      obtain ⟨ref, -, -, rfl⟩ := assertCortexRefs_eq_error hatts
      exact .inr ⟨fun h => (nomatch h.2), ref, rfl⟩
    | ok u => exact .inl ⟨⟨rfl, rfl⟩, rfl⟩

/-- **The envelope of a session.** The prompt has the largest number of turns that fits the budget, and ends with the
request and a newline; it is refused exactly when the smallest number does not fit or a reference is no cortex
reference. Every turn's body is capped. -/
theorem seal_spec (W : WordClass) (s : SessionForSeal) (msg : List Char) (k : ℤ) (budget : Option Budget) :
    SealSpec W s msg k budget (msg ++ ['\n']) ∧
      ∀ (t : Turn) (perTurnCap : ℤ), Capped t perTurnCap (capTurnBody t perTurnCap) := by
  refine ⟨?_, capTurnBody_spec⟩
  obtain ⟨hadmissible, hlargest, hfits⟩ := shrunkK_spec W s msg k (budget.getD {})
  obtain ⟨hrefs, hseal⟩ | ⟨hrefs, ref, hseal⟩ := sealSession_eq W s msg k budget
  · rw [sealAt_eq] at hseal
    by_cases hover : (budget.getD {}).total < promptSize W s msg (budget.getD {}) (shrunkK W s msg k (budget.getD {}))
    · rw [if_pos hover] at hseal
      have hnot : ¬ Fits W s msg (budget.getD {}) (leastK s k) := fun h => absurd (hfits.2 h) (not_le.2 hover)
      constructor
      · intro r hr
        rw [hseal] at hr
        cases hr
      · exact iff_of_false (fun ⟨r, hr⟩ => by rw [hseal] at hr; cases hr) fun h => hnot h.2
      · exact iff_of_true ⟨_, _, _, hseal⟩ ⟨hrefs, hnot⟩
      · exact iff_of_false (fun ⟨ref, hr⟩ => by rw [hseal] at hr; cases hr) fun h => h hrefs
    · rw [if_neg hover] at hseal
      have hwithin : Fits W s msg (budget.getD {}) (shrunkK W s msg k (budget.getD {})) := not_lt.1 hover
      constructor
      · intro r hr
        rw [hseal] at hr
        cases hr
        refine ⟨rfl, ?_, ending_isSuffix _ msg, rfl, fun t ht => ?_, hadmissible, hlargest⟩
        · rw [utf8Size_append]
          exact hwithin
        · exact ne_of_mem_liveTurns ht
      · exact iff_of_true ⟨_, hseal⟩ ⟨hrefs, hfits.1 hwithin⟩
      · exact iff_of_false (fun ⟨size, total, kUsed, hr⟩ => by rw [hseal] at hr; cases hr) fun h => h.2 (hfits.1 hwithin)
      · exact iff_of_false (fun ⟨ref, hr⟩ => by rw [hseal] at hr; cases hr) fun h => h hrefs
  · constructor
    · intro r hr
      rw [hseal] at hr
      cases hr
    · exact iff_of_false (fun ⟨r, hr⟩ => by rw [hseal] at hr; cases hr) fun h => hrefs h.1
    · exact iff_of_false (fun ⟨size, total, kUsed, hr⟩ => by rw [hseal] at hr; cases hr) fun h => hrefs h.1
    · exact iff_of_true ⟨ref, hseal⟩ hrefs

/-- A session without turns. -/
def shortSession : SessionForSeal where
  sessionId := "s1".toList
  turnCount := 1
  transcriptUri := "cortex://s1".toList
  rollupText := []
  indexLines := []
  turns := []
  attachments := []
  refs := []

/-- The prompt for a request ends with a newline behind it. -/
theorem seal_ends_with_newline : ¬ SealSpec ⟨fun c => c.isAlphanum || c == '_', fun _ _ => rfl⟩ shortSession "hi".toList 2
    none "hi".toList := by
  intro h
  have hends : (match sealSession ⟨fun c => c.isAlphanum || c == '_', fun _ _ => rfl⟩ shortSession "hi".toList 2 none with
      | .ok r => "hi".toList.isSuffixOf r.promptText
      | .error _ => true) = false := by decide +kernel
  split at hends
  · rename_i r hr
    rw [List.isSuffixOf_iff_suffix.2 (h.sealed r hr).ends] at hends
    cases hends
  · cases hends

end LlmGateway.SessionStore
