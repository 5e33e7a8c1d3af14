import LlmGateway.Foundations.Utf8
import LlmGateway.Foundations.Words

/-!
# Pieces of a text that is too long

A text that does not fit is cut at its rows, at its words, and within a word in front of a character. `hardCutText`
counts bytes, `_word_split` and `_split_oversized` count characters.

From a limit of four bytes on every character fits, and the pieces of `hardCutText` are the text (`hardCutText_spec`).
Whatever is cut, only white space is lost (`visible_splitOversized`).
-/

namespace LlmGateway.Rag

open Utf8 (encode decode)

def chunkHardCapBytes : ℕ := 3481 * 3

/-! ## Bytes -/

/-- The last place up to `cut` that is not inside a character. -/
def boundary (raw : List UInt8) : ℕ → ℕ
  | 0 => 0
  | cut + 1 => if Utf8.isContinuation (raw.getD (cut + 1) 0) then boundary raw cut else cut + 1

def utf8Cut (raw : List UInt8) (maxBytes : ℕ) : List UInt8 × List UInt8 :=
  if raw.length ≤ maxBytes then (raw, [])
  else if boundary raw maxBytes = 0 then ([], raw)
  else (raw.take (boundary raw maxBytes), raw.drop (boundary raw maxBytes))

theorem length_utf8Cut_le (raw : List UInt8) (maxBytes : ℕ) :
    (utf8Cut raw maxBytes).2.length + (utf8Cut raw maxBytes).1.length = raw.length := by
  unfold utf8Cut
  split_ifs
  · exact Nat.zero_add _
  · exact Nat.add_zero _
  · rw [List.length_drop, List.length_take]
    omega

/-- The loop of `_hard_cut_text`. -/
def hardCut (cap : ℕ) (raw : List UInt8) : List (List UInt8) :=
  if raw = [] then []
  else if raw.length ≤ cap then [raw]
  else if _h : (utf8Cut raw cap).1 = [] then []
  else (utf8Cut raw cap).1 :: hardCut cap (utf8Cut raw cap).2
  termination_by raw.length
  decreasing_by
    have hlen := length_utf8Cut_le raw cap
    have hpos := List.length_pos_iff.2 _h
    omega

/-- The limit of bytes that a piece is cut by. -/
def pieceCap (maxBytes : ℕ) : ℕ := max 1 (min maxBytes chunkHardCapBytes)

/-- `_hard_cut_text`. -/
def hardCutText (text : List Char) (maxBytes : ℕ) : List (List Char) :=
  (hardCut (pieceCap maxBytes) (encode text)).map decode

theorem boundary_encode {cs : List Char} {c : Char} {cut : ℕ} (hc : c.utf8Size ≤ cut)
    (h : cut < (encode (c :: cs)).length) : ∃ ps qs, c :: cs = ps ++ qs ∧ ps ≠ [] ∧
      (encode ps).length = boundary (encode (c :: cs)) cut ∧ (encode ps).length ≤ cut := by
  induction cut with
  | zero =>
    have hpos := c.utf8Size_pos
    omega
  | succ cut ih =>
    rw [boundary, List.getD_eq_getElem?_getD, List.getElem?_eq_getElem h, Option.getD_some]
    split_ifs with hinside
    · obtain hlt | heq := Nat.lt_or_eq_of_le hc
      · obtain ⟨ps, qs, heq, hne, hlen, hle⟩ := ih (Nat.lt_succ_iff.1 hlt) (by omega)
        exact ⟨ps, qs, heq, hne, hlen, by omega⟩
      · -- The second character starts there.
        have hsecond := (Utf8.isContinuation_getElem_encode h).2
          ⟨[c], cs, rfl, by rw [Utf8.encode_cons, Utf8.encode_nil, List.append_nil, String.length_utf8EncodeChar, heq]⟩
        exact absurd (hsecond.symm.trans hinside) Bool.false_ne_true
    · obtain ⟨ps, qs, heq, hlen⟩ := (Utf8.isContinuation_getElem_encode h).1 (by simpa using hinside)
      refine ⟨ps, qs, heq, ?_, hlen, hlen.le⟩
      rintro rfl
      cases hlen

theorem utf8Cut_encode {cs : List Char} {cap : ℕ} (hcap : 4 ≤ cap) (h : cap < (encode cs).length) :
    ∃ ps qs, cs = ps ++ qs ∧ ps ≠ [] ∧ utf8Cut (encode cs) cap = (encode ps, encode qs) ∧ (encode ps).length ≤ cap := by
  cases cs with
  | nil => cases h
  | cons c cs =>
    obtain ⟨ps, qs, heq, hne, hlen, hle⟩ := boundary_encode (c.utf8Size_le_four.trans hcap) h
    refine ⟨ps, qs, heq, hne, ?_, hle⟩
    have hpos : boundary (encode (c :: cs)) cap ≠ 0 := by
      rw [← hlen]
      exact fun hzero => hne (Utf8.encode_eq_nil.1 (List.length_eq_zero_iff.1 hzero))
    rw [utf8Cut, if_neg (by omega), if_neg hpos, ← hlen, heq, Utf8.encode_append, List.take_left, List.drop_left]

theorem hardCut_encode {cap : ℕ} (hcap : 4 ≤ cap) (cs : List Char) : ∃ pieces : List (List Char),
    hardCut cap (encode cs) = pieces.map encode ∧ pieces.flatten = cs ∧
      ∀ p ∈ pieces, p ≠ [] ∧ (encode p).length ≤ cap := by
  induction hsize : cs.length using Nat.strong_induction_on generalizing cs with
  | _ size ih =>
    rw [hardCut]
    by_cases hnil : cs = []
    · rw [hnil]
      exact ⟨[], rfl, rfl, nofun⟩
    rw [if_neg (Utf8.encode_eq_nil.not.2 hnil)]
    by_cases hfits : (encode cs).length ≤ cap
    · rw [if_pos hfits]
      refine ⟨[cs], rfl, List.flatten_singleton, fun p hp => ?_⟩
      rw [List.mem_singleton.1 hp]
      exact ⟨hnil, hfits⟩
    · obtain ⟨ps, qs, rfl, hne, hcut, hle⟩ := utf8Cut_encode hcap (not_le.1 hfits)
      have hlt : qs.length < size := by
        have hpos := List.length_pos_iff.2 hne
        rw [← hsize, List.length_append]
        omega
      obtain ⟨pieces, heq, hflatten, hpieces⟩ := ih qs.length hlt qs rfl
      rw [if_neg hfits, hcut, dif_neg (Utf8.encode_eq_nil.not.2 hne)]
      exact ⟨ps :: pieces, by rw [heq, List.map_cons], by rw [List.flatten_cons, hflatten],
        List.forall_mem_cons.2 ⟨⟨hne, hle⟩, hpieces⟩⟩

theorem four_le_pieceCap {maxChars : ℕ} (h : 4 ≤ maxChars) : 4 ≤ pieceCap maxChars := by
  unfold pieceCap chunkHardCapBytes
  omega

theorem hardCutText_spec {maxBytes : ℕ} (h : 4 ≤ maxBytes) (text : List Char) :
    (hardCutText text maxBytes).flatten = text ∧
      ∀ p ∈ hardCutText text maxBytes, p ≠ [] ∧ (encode p).length ≤ maxBytes := by
  obtain ⟨pieces, heq, hflatten, hpieces⟩ := hardCut_encode (four_le_pieceCap h) text
  have hpiecesText : hardCutText text maxBytes = pieces := by
    rw [hardCutText, heq, List.map_map]
    exact (List.map_congr_left fun p _ => Utf8.decode_encode p).trans (List.map_id _)
  rw [hpiecesText]
  refine ⟨hflatten, fun p hp => ⟨(hpieces p hp).1, (hpieces p hp).2.trans ?_⟩⟩
  unfold pieceCap
  omega

/-! ## Words and rows -/

/-- The pieces so far, and the words or rows gathered for the next one. -/
structure Pieces where
  chunks : List (List Char)
  current : List (List Char)
  currentLen : ℕ

/-- What is gathered becomes a piece, if there is any. -/
def Pieces.flush (join : List (List Char) → List Char) (s : Pieces) : Pieces :=
  if s.current.isEmpty then s else ⟨s.chunks ++ [join s.current], [], 0⟩

/-- What does not fit by itself becomes pieces of its own. -/
def Pieces.extend (join : List (List Char) → List Char) (s : Pieces) (pieces : List (List Char)) : Pieces :=
  ⟨(s.flush join).chunks ++ pieces, (s.flush join).current, (s.flush join).currentLen⟩

/-- A word or a row is gathered. -/
def Pieces.push (s : Pieces) (text : List Char) : Pieces :=
  ⟨s.chunks, s.current ++ [text], s.currentLen + text.length + 1⟩

/-- What is gathered becomes a piece when the text does not fit behind it. -/
def Pieces.makeRoom (join : List (List Char) → List Char) (cap : ℕ) (s : Pieces) (text : List Char) : Pieces :=
  if cap < s.currentLen + text.length + 1 ∧ s.current ≠ [] then s.flush join else s

/-- A word in the loop of `_word_split`. -/
def wordStep (cap : ℕ) (s : Pieces) (word : List Char) : Pieces :=
  if cap < (encode word).length ∨ cap < word.length then s.extend Words.join (hardCutText word cap)
  else (s.makeRoom Words.join cap word).push word

def wordSplit (text : List Char) (maxChars : ℕ) : List (List Char) :=
  let cap := pieceCap maxChars
  let chunks := (((Words.split text).foldl (wordStep cap) ⟨[], [], 0⟩).flush Words.join).chunks
  if chunks.isEmpty ∧ text ≠ [] then hardCutText text cap else chunks

/-- `"\n".join(rows)`. -/
def joinRows (rows : List (List Char)) : List Char := ['\n'].intercalate rows

/-- A row in the loop of `_split_oversized`. -/
def rowStep (maxChars : ℕ) (s : Pieces) (row : List Char) : Pieces :=
  if maxChars < row.length then (s.makeRoom joinRows maxChars row).extend joinRows (wordSplit row maxChars)
  else (s.makeRoom joinRows maxChars row).push row

def splitOversized (para : List Char) (maxChars : ℕ) : List (List Char) :=
  if '|' ∈ para ∧ '\n' ∈ para then
    (((para.splitOn '\n').foldl (rowStep maxChars) ⟨[], [], 0⟩).flush joinRows).chunks
  else wordSplit para maxChars

/-! ## Nothing but white space is lost -/

/-- What is visible of the pieces and of what is gathered. -/
def Pieces.visible (s : Pieces) : List Char := Text.visible (s.chunks.flatten ++ s.current.flatten)

namespace Pieces

variable {join : List (List Char) → List Char} (hjoin : ∀ l, Text.visible (join l) = Text.visible l.flatten)

include hjoin

theorem visible_flush (s : Pieces) : (s.flush join).visible = s.visible := by
  unfold flush
  split_ifs
  · rfl
  · rw [visible, visible, List.flatten_append, List.flatten_singleton, List.flatten_nil, List.append_nil,
      Text.visible_append, hjoin, Text.visible_append]

theorem visible_chunks_flush (s : Pieces) : Text.visible (s.flush join).chunks.flatten = s.visible := by
  rw [← visible_flush hjoin, visible]
  unfold flush
  split_ifs with hempty
  · rw [List.isEmpty_iff.1 hempty, List.flatten_nil, List.append_nil]
  · rw [List.flatten_nil, List.append_nil]

theorem visible_extend (s : Pieces) (pieces : List (List Char)) :
    (s.extend join pieces).visible = s.visible ++ Text.visible pieces.flatten := by
  have hempty : (s.flush join).current = [] := by
    unfold flush
    split_ifs with hempty
    · exact List.isEmpty_iff.1 hempty
    · rfl
  rw [extend, visible, hempty, List.flatten_nil, List.append_nil, List.flatten_append, Text.visible_append,
    visible_chunks_flush hjoin]

theorem visible_makeRoom (cap : ℕ) (s : Pieces) (text : List Char) : (s.makeRoom join cap text).visible = s.visible := by
  unfold makeRoom
  split_ifs
  · exact visible_flush hjoin s
  · rfl

omit hjoin

theorem visible_push (s : Pieces) (text : List Char) : (s.push text).visible = s.visible ++ Text.visible text := by
  rw [push, visible, visible, List.flatten_append, List.flatten_singleton, ← Text.visible_append, List.append_assoc]

theorem visible_foldl {step : Pieces → List Char → Pieces}
    (hstep : ∀ s text, (step s text).visible = s.visible ++ Text.visible text) (s : Pieces) (texts : List (List Char)) :
    (texts.foldl step s).visible = s.visible ++ Text.visible texts.flatten := by
  induction texts generalizing s with
  | nil => rw [List.foldl_nil, List.flatten_nil, Text.visible_nil, List.append_nil]
  | cons text texts ih =>
    rw [List.foldl_cons, ih, hstep, List.flatten_cons, Text.visible_append, List.append_assoc]

end Pieces

variable {maxChars : ℕ}

theorem visible_wordStep {cap : ℕ} (h : 4 ≤ cap) (s : Pieces) (word : List Char) :
    (wordStep cap s word).visible = s.visible ++ Text.visible word := by
  unfold wordStep
  split_ifs
  · rw [Pieces.visible_extend Words.visible_join, (hardCutText_spec h word).1]
  · rw [Pieces.visible_push, Pieces.visible_makeRoom Words.visible_join]

theorem visible_wordSplit (h : 4 ≤ maxChars) (text : List Char) :
    Text.visible (wordSplit text maxChars).flatten = Text.visible text := by
  have hcap := four_le_pieceCap h
  simp only [wordSplit]
  split_ifs
  · rw [(hardCutText_spec hcap text).1]
  · rw [Pieces.visible_chunks_flush Words.visible_join, Pieces.visible_foldl (visible_wordStep hcap),
      Words.flatten_split, Text.visible_visible]
    rfl

theorem visible_joinRows (rows : List (List Char)) : Text.visible (joinRows rows) = Text.visible rows.flatten :=
  Text.visible_intercalate (List.forall_mem_singleton.2 (by decide)) rows

theorem visible_rowStep (h : 4 ≤ maxChars) (s : Pieces) (row : List Char) :
    (rowStep maxChars s row).visible = s.visible ++ Text.visible row := by
  unfold rowStep
  split_ifs
  · rw [Pieces.visible_extend visible_joinRows, Pieces.visible_makeRoom visible_joinRows, visible_wordSplit h]
  · rw [Pieces.visible_push, Pieces.visible_makeRoom visible_joinRows]

theorem visible_splitOversized (h : 4 ≤ maxChars) (para : List Char) :
    Text.visible (splitOversized para maxChars).flatten = Text.visible para := by
  unfold splitOversized
  split_ifs
  · rw [Pieces.visible_chunks_flush visible_joinRows, Pieces.visible_foldl (visible_rowStep h), ← visible_joinRows,
      joinRows, List.intercalate_splitOn]
    rfl
  · exact visible_wordSplit h para

end LlmGateway.Rag
