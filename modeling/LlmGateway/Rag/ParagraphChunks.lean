import Mathlib.Algebra.BigOperators.Group.List.Basic
import Mathlib.Algebra.GroupWithZero.Nat
import Mathlib.Algebra.Order.BigOperators.Group.List
import Mathlib.Algebra.Order.Group.Nat
import Mathlib.Data.List.Chain
import LlmGateway.Rag.TextPieces

/-!
# Chunks of paragraphs

`_split_paragraphs` gathers paragraphs up to a target, and starts every chunk with the last paragraphs of the one before.
With a chunk it gives how many characters in front were carried there. In the end what is too long in bytes is cut.

* `Windows` runs the loop with the blocks that the chunks are made of: which paragraphs were carried to a window, how many
  of them were taken off again, and which it adds (`Windows.loop_add`, `splitParagraphs_eq`).
* A block keeps what it adds (`Block.kept_chunks`). It keeps less when a paragraph that was taken off is still counted
  (`Block.length_kept_lt`), and more when it is cut with carried paragraphs in it (`Block.lt_length_kept`).
* What is counted is in the chunk before, unless that one was cut behind it (`Block.linked_chunks`).

So a text is covered once when none of this happens, and only then as long as nothing is lost where something else is
repeated (`splitParagraphs_covers`).
-/

namespace LlmGateway.Rag

open Utf8 (encode)

/-! ## Paragraphs -/

/-- `re.split(r"\n{2,}", text)`, behind the beginning of a paragraph. -/
def splitBlankLines (para : List Char) (text : List Char) : List (List Char) :=
  match text with
  | [] => [para]
  | '\n' :: '\n' :: text => para :: splitBlankLines [] (text.dropWhile (· == '\n'))
  | c :: text => splitBlankLines (para ++ [c]) text
  termination_by text.length
  decreasing_by
  · have hle := (List.dropWhile_suffix (· == '\n') (l := text)).length_le
    simp only [List.length_cons]
    omega
  · exact Nat.lt_succ_self _

/-- `"\n\n".join(paras)`. -/
def joinParas (paras : List (List Char)) : List Char := ['\n', '\n'].intercalate paras

def parasLen (paras : List (List Char)) : ℕ := (paras.map List.length).sum + (paras.length - 1) * 2

def overlapPrefixLen (carry : List (List Char)) : ℕ :=
  if carry.isEmpty then 0 else (carry.map List.length).sum + (carry.length - 1) * 2

/-- `current[-overlap:]`; all of it when `overlap` is zero. -/
def lastParas (overlap : ℕ) (current : List (List Char)) : List (List Char) :=
  if overlap = 0 then current else current.drop (current.length - overlap)

/-- The paragraphs that are carried to the next chunk. -/
def carried (overlap : ℕ) (current : List (List Char)) : List (List Char) :=
  if overlap < current.length then lastParas overlap current else current

/-- Paragraphs are taken off in front until the others fit, or one is left. -/
def dropToFit (hardMax : ℕ) : List (List Char) → List (List Char)
  | p :: q :: paras => if hardMax < parasLen (p :: q :: paras) then dropToFit hardMax (q :: paras) else p :: q :: paras
  | paras => paras

/-! ## The loop -/

/-- The variables of the loop. -/
structure Loop where
  results : List (List Char × ℕ)
  current : List (List Char)
  currentLen : ℕ
  carry : List (List Char)

/-- What is gathered becomes a chunk, if there is any. -/
def Loop.flush (s : Loop) : List (List Char × ℕ) :=
  if s.current.isEmpty then s.results else s.results ++ [(joinParas s.current, overlapPrefixLen s.carry)]

def Loop.newLen (s : Loop) (para : List Char) : ℕ := s.currentLen + (if s.current.isEmpty then 0 else 2) + para.length

/-- The body of the loop, for a paragraph that is not blank. -/
def addParagraph (hardMax targetChars overlap : ℕ) (s : Loop) (para : List Char) : Loop :=
  if hardMax < para.length then ⟨s.flush ++ (splitOversized para hardMax).map fun piece => (piece, 0), [], 0, []⟩
  else if targetChars < s.newLen para ∧ s.current ≠ [] then
    if s.newLen para ≤ hardMax then
      let carry := carried overlap (s.current ++ [para])
      ⟨s.results ++ [(joinParas (s.current ++ [para]), overlapPrefixLen s.carry)], carry, parasLen carry, carry⟩
    else
      let results := s.results ++ [(joinParas s.current, overlapPrefixLen s.carry)]
      let carry := carried overlap s.current
      let current := dropToFit hardMax (carry ++ [para])
      if hardMax < parasLen current then
        ⟨results ++ (splitOversized para hardMax).map fun piece => (piece, 0), [], 0, []⟩
      else ⟨results, current, parasLen current, carry⟩
  else ⟨s.results, s.current ++ [para], s.newLen para, s.carry⟩

/-- The body of the loop. -/
def paragraphStep (hardMax targetChars overlap : ℕ) (s : Loop) (text : List Char) : Loop :=
  if (Text.strip text).isEmpty then s else addParagraph hardMax targetChars overlap s (Text.strip text)

/-- A chunk that is too long in bytes is cut. -/
def bound (hardMax : ℕ) (chunk : List Char × ℕ) : List (List Char × ℕ) :=
  if (encode chunk.1).length ≤ hardMax then [chunk] else (hardCutText chunk.1 hardMax).map fun piece => (piece, 0)

/-- The hard limit. -/
def hardLimit (targetChars padChars maxBytes : ℕ) : ℕ := min (targetChars + padChars) (max 1 maxBytes)

def splitParagraphs (text : List Char) (targetChars padChars overlap maxBytes : ℕ) : List (List Char × ℕ) :=
  let hardMax := hardLimit targetChars padChars maxBytes
  let paragraphs := splitBlankLines [] (Text.strip text)
  (paragraphs.foldl (paragraphStep hardMax targetChars overlap) ⟨[], [], 0, []⟩).flush.flatMap (bound hardMax)

/-! ## Joined paragraphs -/

section

variable {paras carry fresh : List (List Char)} {para : List Char} {hardMax : ℕ}

theorem length_joinParas (paras : List (List Char)) : (joinParas paras).length = parasLen paras := by
  induction paras with
  | nil => rfl
  | cons p paras ih =>
    cases paras with
    | nil => simp [joinParas, parasLen]
    | cons q paras =>
      rw [joinParas, List.intercalate_cons_cons, List.length_append, List.length_append, ← joinParas, ih, parasLen,
        parasLen]
      simp only [List.map_cons, List.sum_cons, List.length_cons, List.length_nil]
      omega

theorem overlapPrefixLen_eq (carry : List (List Char)) : overlapPrefixLen carry = parasLen carry := by
  cases carry with
  | nil => rfl
  | cons p carry => rfl

theorem joinParas_append (hne : fresh ≠ []) : joinParas (carry ++ fresh) =
    (if carry.isEmpty then [] else joinParas carry ++ ['\n', '\n']) ++ joinParas fresh := by
  induction carry with
  | nil => rfl
  | cons p carry ih =>
    cases carry with
    | nil =>
      obtain ⟨q, paras, rfl⟩ := List.exists_cons_of_ne_nil hne
      simp [joinParas]
    | cons q carry =>
      rw [joinParas, List.cons_append, List.cons_append, List.intercalate_cons_cons, ← List.cons_append, ← joinParas, ih]
      simp [joinParas]

theorem parasLen_append (hcarry : carry ≠ []) (hfresh : fresh ≠ []) :
    parasLen (carry ++ fresh) = parasLen carry + 2 + parasLen fresh := by
  rw [← length_joinParas, joinParas_append hfresh, if_neg (by simpa using hcarry), List.length_append,
    List.length_append, length_joinParas, length_joinParas]
  rfl

theorem visible_joinParas (paras : List (List Char)) : Text.visible (joinParas paras) = Text.visible paras.flatten :=
  Text.visible_intercalate (List.forall_mem_cons.2 ⟨by decide, List.forall_mem_singleton.2 (by decide)⟩) paras

theorem carried_isSuffix (overlap : ℕ) (current : List (List Char)) : carried overlap current <:+ current := by
  unfold carried lastParas
  split_ifs
  · exact List.suffix_rfl
  · exact List.drop_suffix _ _
  · exact List.suffix_rfl

/-- How many paragraphs of the carried ones are taken off for a new one to fit. -/
def dropsToFit (hardMax : ℕ) (para : List Char) : List (List Char) → ℕ
  | [] => 0
  | p :: carry => if hardMax < parasLen (p :: carry ++ [para]) then dropsToFit hardMax para carry + 1 else 0

theorem dropsToFit_le (hardMax : ℕ) (para : List Char) (carry : List (List Char)) :
    dropsToFit hardMax para carry ≤ carry.length := by
  induction carry with
  | nil => exact le_rfl
  | cons p carry ih =>
    rw [dropsToFit]
    split_ifs
    · exact Nat.succ_le_succ ih
    · exact Nat.zero_le _

theorem dropToFit_append (hardMax : ℕ) (para : List Char) (carry : List (List Char)) :
    dropToFit hardMax (carry ++ [para]) = carry.drop (dropsToFit hardMax para carry) ++ [para] := by
  induction carry with
  | nil => rfl
  | cons p carry ih =>
    obtain ⟨q, paras, hq⟩ := List.exists_cons_of_ne_nil (List.append_ne_nil_of_right_ne_nil carry (List.cons_ne_nil para []))
    rw [dropsToFit, List.cons_append, hq, dropToFit, ← hq, ih]
    split_ifs
    · rw [List.drop_succ_cons]
    · rfl

theorem parasLen_dropToFit (h : para.length ≤ hardMax) (carry : List (List Char)) :
    parasLen (dropToFit hardMax (carry ++ [para])) ≤ hardMax := by
  induction carry with
  | nil => simpa [dropToFit, parasLen] using h
  | cons p carry ih =>
    obtain ⟨q, paras, hq⟩ := List.exists_cons_of_ne_nil (List.append_ne_nil_of_right_ne_nil carry (List.cons_ne_nil para []))
    rw [List.cons_append, hq, dropToFit, ← hq]
    split_ifs with hlong
    · exact ih
    · exact not_lt.1 hlong

end

/-! ## What the chunks are made of -/

variable {hardMax targetChars overlap : ℕ}

/-- A chunk before it is cut: the paragraphs that were carried to it, how many of them were taken off in front, and those
that it adds. A paragraph that does not fit is by itself. -/
inductive Block where
  | window (carry : List (List Char)) (dropped : ℕ) (fresh : List (List Char))
  | oversized (para : List Char)

namespace Block

def carry : Block → List (List Char)
  | window carry _ _ => carry
  | oversized _ => []

def dropped : Block → ℕ
  | window _ dropped _ => dropped
  | oversized _ => 0

/-- The paragraphs that a block adds. -/
def fresh : Block → List (List Char)
  | window _ _ fresh => fresh
  | oversized para => [para]

/-- The paragraphs of a window. -/
def paras : Block → List (List Char)
  | window carry dropped fresh => carry.drop dropped ++ fresh
  | oversized _ => []

/-- What the loop writes. -/
def results (hardMax : ℕ) : Block → List (List Char × ℕ)
  | window carry dropped fresh => [(joinParas (carry.drop dropped ++ fresh), overlapPrefixLen carry)]
  | oversized para => (splitOversized para hardMax).map fun piece => (piece, 0)

/-- The chunks of a block. -/
def chunks (hardMax : ℕ) (b : Block) : List (List Char × ℕ) := (b.results hardMax).flatMap (bound hardMax)

end Block

/-- The loop with its blocks; what is gathered is a window that is not closed. -/
structure Windows where
  blocks : List Block
  carry : List (List Char)
  dropped : ℕ
  fresh : List (List Char)

namespace Windows

/-- The paragraphs that are gathered. -/
def current (s : Windows) : List (List Char) := s.carry.drop s.dropped ++ s.fresh

/-- The variables of the loop. -/
def loop (hardMax : ℕ) (s : Windows) : Loop :=
  ⟨s.blocks.flatMap (·.results hardMax), s.current, parasLen s.current, s.carry⟩

theorem current_loop (s : Windows) : (s.loop hardMax).current = s.current := rfl

/-- The blocks with the window that is gathered, if there is anything in it. -/
def close (s : Windows) : List Block :=
  if s.current.isEmpty then s.blocks else s.blocks ++ [.window s.carry s.dropped s.fresh]

/-- `addParagraph`, with the blocks. -/
def add (hardMax targetChars overlap : ℕ) (s : Windows) (para : List Char) : Windows :=
  if hardMax < para.length then ⟨s.close ++ [.oversized para], [], 0, []⟩
  else if targetChars < parasLen (s.current ++ [para]) ∧ s.current ≠ [] then
    if parasLen (s.current ++ [para]) ≤ hardMax then
      ⟨s.blocks ++ [.window s.carry s.dropped (s.fresh ++ [para])], carried overlap (s.current ++ [para]), 0, []⟩
    else
      ⟨s.blocks ++ [.window s.carry s.dropped s.fresh], carried overlap s.current,
        dropsToFit hardMax para (carried overlap s.current), [para]⟩
  else ⟨s.blocks, s.carry, s.dropped, s.fresh ++ [para]⟩

theorem results_close (s : Windows) : s.close.flatMap (·.results hardMax) = (s.loop hardMax).flush := by
  unfold close Loop.flush
  rw [loop]
  split_ifs
  · rfl
  · rw [List.flatMap_append, List.flatMap_singleton]
    rfl

theorem newLen_loop (s : Windows) (para : List Char) :
    (s.loop hardMax).newLen para = parasLen (s.current ++ [para]) := by
  rw [Loop.newLen, current_loop]
  change parasLen s.current + _ + _ = _
  by_cases hempty : s.current = []
  · simp [hempty, parasLen]
  · rw [if_neg (by simpa using hempty), parasLen_append hempty (List.cons_ne_nil para [])]
    simp [parasLen]

theorem loop_add (s : Windows) (para : List Char) :
    (s.add hardMax targetChars overlap para).loop hardMax =
      addParagraph hardMax targetChars overlap (s.loop hardMax) para := by
  unfold add addParagraph
  by_cases hlong : hardMax < para.length
  · rw [if_pos hlong, if_pos hlong, ← results_close]
    simp [loop, current, Block.results, parasLen]
  rw [if_neg hlong, if_neg hlong]
  simp only [newLen_loop, current_loop]
  split_ifs with hfull hpad hdead
  · simp [loop, current, Block.results]
  · exact absurd (parasLen_dropToFit (not_lt.1 hlong) (carried overlap s.current)) (not_le.2 hdead)
  · refine Eq.trans ?_ (if_neg hdead).symm
    simp [loop, current, Block.results, dropToFit_append]
  · simp [loop, current]

end Windows

/-- The paragraphs of a text. -/
def paragraphs (text : List Char) : List (List Char) :=
  ((splitBlankLines [] (Text.strip text)).map Text.strip).filter fun para => !para.isEmpty

/-- The blocks that a text is split into. -/
def blocks (text : List Char) (hardMax targetChars overlap : ℕ) : List Block :=
  ((paragraphs text).foldl (Windows.add hardMax targetChars overlap) ⟨[], [], 0, []⟩).close

theorem loop_foldl (s : Windows) (texts : List (List Char)) :
    (((texts.map Text.strip).filter fun para => !para.isEmpty).foldl
        (Windows.add hardMax targetChars overlap) s).loop hardMax =
      texts.foldl (paragraphStep hardMax targetChars overlap) (s.loop hardMax) := by
  induction texts generalizing s with
  | nil => rfl
  | cons text texts ih =>
    rw [List.map_cons, List.foldl_cons, paragraphStep]
    by_cases hblank : (Text.strip text).isEmpty
    · rw [List.filter_cons_of_neg (by simp [hblank]), ih, if_pos hblank]
    · rw [List.filter_cons_of_pos (by simp [hblank]), List.foldl_cons, ih, if_neg hblank, Windows.loop_add]

theorem splitParagraphs_eq (text : List Char) (targetChars padChars overlap maxBytes : ℕ) :
    splitParagraphs text targetChars padChars overlap maxBytes =
      (blocks text (hardLimit targetChars padChars maxBytes) targetChars overlap).flatMap
        (·.chunks (hardLimit targetChars padChars maxBytes)) := by
  have hinit : (⟨[], [], 0, []⟩ : Loop) = Windows.loop (hardLimit targetChars padChars maxBytes) ⟨[], [], 0, []⟩ := rfl
  simp only [splitParagraphs]
  rw [hinit, ← loop_foldl, ← Windows.results_close, List.flatMap_assoc]
  rfl

/-! ## Which paragraphs are carried -/

/-- A paragraph starts with what is no white space. -/
def IsPara (para : List Char) : Prop := ∃ c rest, para = c :: rest ∧ Json.isSpace c = false

theorem isPara_strip {text : List Char} (h : Text.strip text ≠ []) : IsPara (Text.strip text) := by
  induction text with
  | nil => exact (h rfl).elim
  | cons c text ih =>
    cases hc : Json.isSpace c with
    | true =>
      rw [Text.strip_cons_of_isSpace hc] at h ⊢
      exact ih h
    | false =>
      rw [Text.strip_cons_of_not_isSpace hc, Text.rstrip_cons_of_not_isSpace hc]
      exact ⟨c, Text.rstrip text, rfl, hc⟩

theorem isPara_of_mem {text para : List Char} (h : para ∈ paragraphs text) : IsPara para := by
  obtain ⟨hmem, hne⟩ := List.mem_filter.1 h
  obtain ⟨part, -, rfl⟩ := List.mem_map.1 hmem
  exact isPara_strip (by simpa using hne)

theorem visible_splitBlankLines (para text : List Char) :
    Text.visible (splitBlankLines para text).flatten = Text.visible para ++ Text.visible text := by
  have hnewlines : ∀ text : List Char, Text.visible (text.dropWhile (· == '\n')) = Text.visible text := by
    intro text
    have hblank : Text.visible (text.takeWhile (· == '\n')) = [] := Text.visible_eq_nil_iff.2 fun c hc => by
      obtain rfl : c = '\n' := by simpa using List.mem_takeWhile_imp hc
      decide
    conv_rhs => rw [← List.takeWhile_append_dropWhile (p := (· == '\n')) (l := text)]
    rw [Text.visible_append, hblank, List.nil_append]
  induction para, text using splitBlankLines.induct with
  | case1 para => rw [splitBlankLines, List.flatten_singleton, Text.visible_nil, List.append_nil]
  | case2 para text ih =>
    have hbreak : Text.visible ('\n' :: '\n' :: text) = Text.visible text := rfl
    rw [splitBlankLines, List.flatten_cons, Text.visible_append, ih, hnewlines, hbreak]
    rfl
  | case3 para c text hc ih =>
    rw [splitBlankLines, ih, Text.visible_append, List.append_assoc, ← Text.visible_append]
    · rfl
    · exact hc

theorem visible_paragraphs (text : List Char) : Text.visible (paragraphs text).flatten = Text.visible text := by
  have hparts : ∀ parts : List (List Char),
      Text.visible ((parts.map Text.strip).filter fun para => !para.isEmpty).flatten = Text.visible parts.flatten := by
    intro parts
    induction parts with
    | nil => rfl
    | cons part parts ih =>
      rw [List.map_cons, List.flatten_cons, Text.visible_append, ← ih, ← Text.visible_strip part]
      by_cases hblank : Text.strip part = []
      · rw [List.filter_cons_of_neg (by simp [hblank]), hblank]
        rfl
      · rw [List.filter_cons_of_pos (by simpa using hblank), List.flatten_cons, Text.visible_append]
  rw [paragraphs, hparts, visible_splitBlankLines, Text.visible_strip]
  rfl

/-- Every block carries paragraphs that the one before ends with. -/
def Follows : List (List Char) → List Block → Prop
  | _, [] => True
  | prev, b :: bs => b.carry <:+ prev ∧ Follows b.paras bs

/-- The paragraphs of the last block. -/
def endParas : List (List Char) → List Block → List (List Char)
  | prev, [] => prev
  | _, b :: bs => endParas b.paras bs

variable {bs : List Block} {chunks : List (List Char × ℕ)}

theorem follows_append {prev : List (List Char)} {bs' : List Block} :
    Follows prev (bs ++ bs') ↔ Follows prev bs ∧ Follows (endParas prev bs) bs' := by
  induction bs generalizing prev with
  | nil => exact (and_iff_right trivial).symm
  | cons b bs ih => rw [List.cons_append, Follows, Follows, ih, endParas, and_assoc]

theorem endParas_append {prev : List (List Char)} {bs' : List Block} :
    endParas prev (bs ++ bs') = endParas (endParas prev bs) bs' := by
  induction bs generalizing prev with
  | nil => rfl
  | cons b bs ih => exact ih

/-- What a block is made of: paragraphs, of which some are new when one was taken off. -/
structure Block.Sound (b : Block) : Prop where
  carry : ∀ p ∈ b.carry, IsPara p
  fresh : ∀ p ∈ b.fresh, IsPara p
  dropped_le : b.dropped ≤ b.carry.length
  fresh_ne_nil : b.dropped ≠ 0 → b.fresh ≠ []

theorem sound_nil : (Block.window [] 0 []).Sound := ⟨nofun, nofun, Nat.zero_le _, nofun⟩

theorem Block.Sound.window {b : Block} (h : b.Sound) {carry fresh : List (List Char)} {dropped : ℕ}
    (hcarry : carry <:+ b.carry.drop b.dropped ++ b.fresh) (hfresh : ∀ p ∈ fresh, IsPara p) (hle : dropped ≤ carry.length)
    (hne : dropped ≠ 0 → fresh ≠ []) : (Block.window carry dropped fresh).Sound := by
  refine ⟨fun p hp => ?_, hfresh, hle, hne⟩
  obtain hp | hp := List.mem_append.1 (hcarry.subset hp)
  · exact h.carry p (List.mem_of_mem_drop hp)
  · exact h.fresh p hp

namespace Windows

/-- The window that is gathered. -/
def next (s : Windows) : Block := .window s.carry s.dropped s.fresh

/-- What holds in the loop: every block and the window that is gathered carry paragraphs that the block before ends with. -/
structure Inv (s : Windows) : Prop where
  sound : ∀ b ∈ s.blocks, b.Sound
  next : s.next.Sound
  follows : Follows [] s.blocks
  carry : s.carry <:+ endParas [] s.blocks

namespace Inv

variable {s : Windows}

theorem push (h : s.Inv) {b : Block} (hb : b.Sound) (hcarry : b.carry <:+ endParas [] s.blocks)
    {carry fresh : List (List Char)} {dropped : ℕ} (hnext : (Block.window carry dropped fresh).Sound)
    (hsuffix : carry <:+ b.paras) : (⟨s.blocks ++ [b], carry, dropped, fresh⟩ : Windows).Inv where
  sound := List.forall_mem_append.2 ⟨h.sound, fun b' hb' => List.mem_singleton.1 hb' ▸ hb⟩
  next := hnext
  follows := follows_append.2 ⟨h.follows, hcarry, trivial⟩
  carry := by rw [endParas_append]; exact hsuffix

theorem close (h : s.Inv) : (⟨s.close, [], 0, []⟩ : Windows).Inv := by
  unfold Windows.close
  split_ifs
  · exact ⟨h.sound, sound_nil, h.follows, List.nil_suffix⟩
  · exact h.push h.next h.carry sound_nil List.nil_suffix

theorem add (h : s.Inv) {para : List Char} (hpara : IsPara para) : (s.add hardMax targetChars overlap para).Inv := by
  have hsingle : ∀ p ∈ [para], IsPara p := fun p hp => List.mem_singleton.1 hp ▸ hpara
  have hne : s.fresh ++ [para] ≠ [] := List.append_ne_nil_of_right_ne_nil _ (List.cons_ne_nil _ _)
  have hpushed : (Block.window s.carry s.dropped (s.fresh ++ [para])).Sound :=
    ⟨h.next.carry, List.forall_mem_append.2 ⟨h.next.fresh, hsingle⟩, h.next.dropped_le, fun _ => hne⟩
  unfold Windows.add
  split_ifs with hlong hfull hpad
  · have hover : (Block.oversized para).Sound := ⟨fun _ hp => absurd hp List.not_mem_nil, hsingle, Nat.zero_le _, nofun⟩
    exact h.close.push hover List.nil_suffix sound_nil List.nil_suffix
  · have hcarried : carried overlap (s.current ++ [para]) <:+ s.carry.drop s.dropped ++ (s.fresh ++ [para]) := by
      rw [← List.append_assoc]
      exact carried_isSuffix overlap _
    exact h.push hpushed h.carry (hpushed.window hcarried nofun (Nat.zero_le _) fun hzero => (hzero rfl).elim)
      hcarried
  · have hcarried := carried_isSuffix overlap s.current
    exact h.push h.next h.carry (h.next.window hcarried hsingle (dropsToFit_le _ _ _)
      fun _ => List.cons_ne_nil _ _) hcarried
  · exact ⟨h.sound, hpushed, h.follows, h.carry⟩

theorem foldl (h : s.Inv) {paras : List (List Char)} (hparas : ∀ p ∈ paras, IsPara p) :
    (paras.foldl (Windows.add hardMax targetChars overlap) s).Inv := by
  induction paras generalizing s with
  | nil => exact h
  | cons p paras ih =>
    obtain ⟨hp, hparas⟩ := List.forall_mem_cons.1 hparas
    exact ih (h.add hp) hparas

end Inv

/-- The paragraphs that are new in the blocks and in what is gathered. -/
def added (s : Windows) : List (List Char) := s.blocks.flatMap Block.fresh ++ s.fresh

theorem fresh_close (s : Windows) : s.close.flatMap Block.fresh = s.added := by
  unfold close added
  split_ifs with hempty
  · rw [(List.append_eq_nil_iff.1 (List.isEmpty_iff.1 hempty)).2, List.append_nil]
  · rw [List.flatMap_append, List.flatMap_singleton]
    rfl

theorem added_add (s : Windows) (para : List Char) :
    (s.add hardMax targetChars overlap para).added = s.added ++ [para] := by
  unfold add
  split_ifs
  · rw [added, List.flatMap_append, fresh_close, List.append_nil]
    rfl
  · simp [added, Block.fresh]
  · simp [added, Block.fresh]
  · simp [added]

theorem added_foldl (s : Windows) (paras : List (List Char)) :
    (paras.foldl (add hardMax targetChars overlap) s).added = s.added ++ paras := by
  induction paras generalizing s with
  | nil => exact (List.append_nil _).symm
  | cons p paras ih => rw [List.foldl_cons, ih, added_add, List.append_assoc, List.singleton_append]

end Windows

theorem inv_blocks (text : List Char) (hardMax targetChars overlap : ℕ) :
    (⟨blocks text hardMax targetChars overlap, [], 0, []⟩ : Windows).Inv := by
  have hinit : (⟨[], [], 0, []⟩ : Windows).Inv := ⟨nofun, sound_nil, trivial, List.nil_suffix⟩
  exact (hinit.foldl fun _ hp => isPara_of_mem hp).close

theorem fresh_blocks (text : List Char) (hardMax targetChars overlap : ℕ) :
    (blocks text hardMax targetChars overlap).flatMap Block.fresh = paragraphs text := by
  rw [blocks, Windows.fresh_close, Windows.added_foldl]
  rfl

/-! ## What is kept of a block -/

/-- What is visible of chunks without what was carried to them. -/
def kept (chunks : List (List Char × ℕ)) : List Char := Text.visible (chunks.flatMap fun c => c.1.drop c.2)

theorem kept_append (chunks chunks' : List (List Char × ℕ)) : kept (chunks ++ chunks') = kept chunks ++ kept chunks' := by
  rw [kept, List.flatMap_append, Text.visible_append]
  rfl

theorem kept_pieces (pieces : List (List Char)) :
    kept (pieces.map fun piece => (piece, 0)) = Text.visible pieces.flatten := by
  rw [kept, List.flatMap_map]
  exact congrArg Text.visible List.flatMap_id

theorem kept_bound (h : 4 ≤ hardMax) (text : List Char) : kept (bound hardMax (text, 0)) = Text.visible text := by
  unfold bound
  split_ifs
  · simp [kept]
  · rw [kept_pieces, (hardCutText_spec h text).1]

namespace Block

/-- The length of a window in bytes. -/
def bytes (b : Block) : ℕ := (encode (joinParas b.paras)).length

/-- Of what was carried a paragraph is missing that is counted. -/
def Lost (hardMax : ℕ) (b : Block) : Prop := b.dropped ≠ 0 ∧ b.bytes ≤ hardMax

/-- What was carried is in a chunk that is cut. -/
def Repeated (hardMax : ℕ) (b : Block) : Prop := b.carry.drop b.dropped ≠ [] ∧ hardMax < b.bytes

theorem kept_oversized (h : 4 ≤ hardMax) (para : List Char) :
    kept ((oversized para).chunks hardMax) = Text.visible para := by
  have hpieces : ∀ pieces : List (List Char),
      kept ((pieces.map fun piece => (piece, 0)).flatMap (bound hardMax)) = Text.visible pieces.flatten := by
    intro pieces
    induction pieces with
    | nil => rfl
    | cons piece pieces ih =>
      rw [List.map_cons, List.flatMap_cons, kept_append, ih, kept_bound h, List.flatten_cons, Text.visible_append]
  rw [chunks, results, hpieces, visible_splitOversized h]

variable {carry fresh : List (List Char)} {dropped : ℕ}

theorem chunks_of_le (h : (window carry dropped fresh).bytes ≤ hardMax) :
    (window carry dropped fresh).chunks hardMax = [(joinParas (carry.drop dropped ++ fresh), parasLen carry)] := by
  rw [chunks, results, List.flatMap_singleton, overlapPrefixLen_eq]
  exact if_pos h

theorem chunks_of_lt (h : hardMax < (window carry dropped fresh).bytes) : (window carry dropped fresh).chunks hardMax =
    (hardCutText (joinParas (carry.drop dropped ++ fresh)) hardMax).map fun piece => (piece, 0) := by
  rw [chunks, results, List.flatMap_singleton]
  exact if_neg (not_le.2 h)

theorem visible_drop_joinParas (carry fresh : List (List Char)) :
    Text.visible ((joinParas (carry ++ fresh)).drop (parasLen carry)) = Text.visible fresh.flatten := by
  by_cases hfresh : fresh = []
  · rw [hfresh, List.append_nil, ← length_joinParas, List.drop_length]
    rfl
  by_cases hcarry : carry = []
  · rw [hcarry]
    exact visible_joinParas fresh
  · have hbreak : Text.visible ['\n', '\n'] = [] := rfl
    rw [joinParas_append hfresh, if_neg (List.isEmpty_iff.not.2 hcarry), List.append_assoc, ← length_joinParas,
      List.drop_left, Text.visible_append, hbreak, visible_joinParas, List.nil_append]

theorem kept_chunks (h : 4 ≤ hardMax) (b : Block) (hlost : ¬b.Lost hardMax) (hrepeated : ¬b.Repeated hardMax) :
    kept (b.chunks hardMax) = Text.visible b.fresh.flatten := by
  cases b with
  | oversized para => rw [kept_oversized h, fresh, List.flatten_singleton]
  | window carry dropped fresh =>
    by_cases hfits : (window carry dropped fresh).bytes ≤ hardMax
    · have hdropped : dropped = 0 := by
        by_contra hne
        exact hlost ⟨hne, hfits⟩
      rw [chunks_of_le hfits, hdropped, List.drop_zero, kept, List.flatMap_singleton, visible_drop_joinParas]
      rfl
    · have hcarry : carry.drop dropped = [] := by
        by_contra hne
        exact hrepeated ⟨hne, not_le.1 hfits⟩
      rw [chunks_of_lt (not_le.1 hfits), kept_pieces, (hardCutText_spec h _).1, visible_joinParas, hcarry]
      rfl

theorem length_visible_drop {text : List Char} (h : IsPara text) {n : ℕ} (hn : n ≠ 0) :
    (Text.visible (text.drop n)).length < (Text.visible text).length := by
  obtain ⟨c, rest, rfl, hc⟩ := h
  obtain ⟨m, rfl⟩ := Nat.exists_eq_succ_of_ne_zero hn
  have hcons : Text.visible (c :: rest) = c :: Text.visible rest := List.filter_cons_of_pos (by simp [hc])
  rw [List.drop_succ_cons, hcons, List.length_cons]
  exact Nat.lt_succ_of_le ((List.drop_sublist m rest).filter _).length_le

theorem isPara_joinParas {paras : List (List Char)} (hne : paras ≠ []) (h : ∀ p ∈ paras, IsPara p) :
    IsPara (joinParas paras) := by
  obtain ⟨p, paras, rfl⟩ := List.exists_cons_of_ne_nil hne
  obtain ⟨c, rest, rfl, hc⟩ := h p List.mem_cons_self
  cases paras with
  | nil => exact ⟨c, rest, List.intercalate_singleton, hc⟩
  | cons q paras => exact ⟨c, _, List.intercalate_cons_cons, hc⟩

theorem parasLen_pos {paras : List (List Char)} (hne : paras ≠ []) (h : ∀ p ∈ paras, IsPara p) : 0 < parasLen paras := by
  obtain ⟨c, rest, heq, -⟩ := isPara_joinParas hne h
  rw [← length_joinParas, heq]
  exact Nat.succ_pos _

theorem length_visible_drop_joinParas (hcarry : ∀ p ∈ carry, IsPara p) (hfresh : ∀ p ∈ fresh, IsPara p)
    (hle : dropped ≤ carry.length) (hdropped : dropped ≠ 0) (hne : fresh ≠ []) :
    (Text.visible ((joinParas (carry.drop dropped ++ fresh)).drop (parasLen carry))).length <
      (Text.visible fresh.flatten).length := by
  have htaken : carry.take dropped ≠ [] := by
    rw [Ne, List.take_eq_nil_iff, not_or]
    refine ⟨hdropped, ?_⟩
    rintro rfl
    exact hdropped (Nat.le_zero.1 hle)
  have hpos := parasLen_pos htaken fun p hp => hcarry p (List.mem_of_mem_take hp)
  have hpara := isPara_joinParas hne hfresh
  by_cases hrest : carry.drop dropped = []
  · rw [hrest, List.nil_append, ← visible_joinParas fresh]
    have hall : parasLen carry ≠ 0 := by
      rw [← List.take_append_drop dropped carry, hrest, List.append_nil]
      exact hpos.ne'
    exact length_visible_drop hpara hall
  · have hlen : parasLen carry = parasLen (carry.take dropped) + 2 + parasLen (carry.drop dropped) := by
      rw [← parasLen_append htaken hrest, List.take_append_drop]
    have hfront : (joinParas (carry.drop dropped) ++ ['\n', '\n']).length = parasLen (carry.drop dropped) + 2 := by
      rw [List.length_append, length_joinParas]
      rfl
    have hsplit : parasLen carry =
        (joinParas (carry.drop dropped) ++ ['\n', '\n']).length + parasLen (carry.take dropped) := by
      omega
    rw [joinParas_append hne, if_neg (List.isEmpty_iff.not.2 hrest), hsplit, ← List.drop_drop, List.drop_left,
      ← visible_joinParas fresh]
    exact length_visible_drop hpara hpos.ne'

variable {b : Block}

theorem length_kept_lt (hb : b.Sound) (hlost : b.Lost hardMax) :
    (kept (b.chunks hardMax)).length < (Text.visible b.fresh.flatten).length := by
  obtain ⟨hdropped, hfits⟩ := hlost
  cases b with
  | oversized para => exact (hdropped rfl).elim
  | window carry dropped fresh =>
    rw [chunks_of_le hfits, kept, List.flatMap_singleton]
    exact length_visible_drop_joinParas hb.carry hb.fresh hb.dropped_le hdropped (hb.fresh_ne_nil hdropped)

theorem lt_length_kept (h : 4 ≤ hardMax) (hb : b.Sound) (hrepeated : b.Repeated hardMax) :
    (Text.visible b.fresh.flatten).length < (kept (b.chunks hardMax)).length := by
  obtain ⟨hcarry, hlong⟩ := hrepeated
  cases b with
  | oversized para => exact (hcarry rfl).elim
  | window carry dropped fresh =>
    have hpara := isPara_joinParas hcarry fun p hp => hb.carry p (List.mem_of_mem_drop hp)
    have hpos : 0 < (Text.visible (carry.drop dropped).flatten).length := by
      rw [← visible_joinParas]
      exact (Nat.zero_le _).trans_lt (length_visible_drop hpara one_ne_zero)
    rw [chunks_of_lt hlong, kept_pieces, (hardCutText_spec h _).1, visible_joinParas, List.flatten_append,
      Text.visible_append, List.length_append]
    exact Nat.lt_add_of_pos_left hpos

theorem length_kept_le (h : 4 ≤ hardMax) (hb : b.Sound) (hrepeated : ¬b.Repeated hardMax) :
    (kept (b.chunks hardMax)).length ≤ (Text.visible b.fresh.flatten).length := by
  by_cases hlost : b.Lost hardMax
  · exact (length_kept_lt hb hlost).le
  · rw [kept_chunks h b hlost hrepeated]

theorem le_length_kept (h : 4 ≤ hardMax) (hb : b.Sound) (hlost : ¬b.Lost hardMax) :
    (Text.visible b.fresh.flatten).length ≤ (kept (b.chunks hardMax)).length := by
  by_cases hrepeated : b.Repeated hardMax
  · exact (lt_length_kept h hb hrepeated).le
  · rw [kept_chunks h b hlost hrepeated]

end Block

/-! ## What is carried from chunk to chunk -/

/-- What is counted in front of every chunk is in it, and the chunk before ends with it. -/
def Linked : List Char → List (List Char × ℕ) → Prop
  | _, [] => True
  | prev, c :: chunks => (c.2 ≤ c.1.length ∧ c.1.take c.2 <:+ prev) ∧ Linked c.1 chunks

/-- The text of the last chunk. -/
def endText : List Char → List (List Char × ℕ) → List Char
  | prev, [] => prev
  | _, c :: chunks => endText c.1 chunks

theorem linked_append {prev : List Char} {chunks' : List (List Char × ℕ)} :
    Linked prev (chunks ++ chunks') ↔ Linked prev chunks ∧ Linked (endText prev chunks) chunks' := by
  induction chunks generalizing prev with
  | nil => exact (and_iff_right trivial).symm
  | cons c chunks ih =>
    rw [List.cons_append, Linked, Linked, ih, endText]
    exact and_assoc.symm

theorem linked_of_zero (h : ∀ c ∈ chunks, c.2 = 0) (prev : List Char) :
    Linked prev chunks := by
  induction chunks generalizing prev with
  | nil => trivial
  | cons c chunks ih =>
    obtain ⟨hc, hchunks⟩ := List.forall_mem_cons.1 h
    rw [Linked, hc, List.take_zero]
    exact ⟨⟨Nat.zero_le _, List.nil_suffix⟩, ih hchunks c.1⟩

theorem endText_of_ne_nil (h : chunks ≠ []) (prev prev' : List Char) :
    endText prev chunks = endText prev' chunks := by
  obtain ⟨c, chunks, rfl⟩ := List.exists_cons_of_ne_nil h
  rfl

theorem endText_isSuffix {pieces : List (List Char)} (hne : pieces ≠ []) (prev : List Char) :
    endText prev (pieces.map fun piece => (piece, 0)) <:+ pieces.flatten := by
  induction pieces generalizing prev with
  | nil => exact (hne rfl).elim
  | cons piece pieces ih =>
    rw [List.map_cons, endText, List.flatten_cons]
    by_cases hpieces : pieces = []
    · rw [hpieces, List.flatten_nil, List.append_nil]
      exact List.suffix_rfl
    · exact (ih hpieces piece).trans (List.suffix_append _ _)

namespace Block

/-- The window fits, but the piece that the block before ends with is shorter than what was carried from there. -/
def Severed (hardMax : ℕ) (a b : Block) : Prop :=
  b.bytes ≤ hardMax ∧ (endText [] (a.chunks hardMax)).length < overlapPrefixLen b.carry

theorem hardCutText_ne_nil (h : 4 ≤ hardMax) {text : List Char} (hlong : hardMax < (encode text).length) :
    hardCutText text hardMax ≠ [] := by
  intro hnil
  have hflatten := (hardCutText_spec h text).1
  rw [hnil] at hflatten
  rw [← hflatten] at hlong
  exact absurd hlong (Nat.not_lt_zero _)

variable {b : Block}

theorem chunks_ne_nil (h : 4 ≤ hardMax) (hb : b.Sound) : b.chunks hardMax ≠ [] := by
  cases b with
  | oversized para =>
    intro hnil
    have hkept := kept_oversized h para
    rw [hnil] at hkept
    have hlt := length_visible_drop (hb.fresh para (List.mem_singleton_self para)) one_ne_zero
    rw [← hkept] at hlt
    exact absurd hlt (Nat.not_lt_zero _)
  | window carry dropped fresh =>
    by_cases hfits : (window carry dropped fresh).bytes ≤ hardMax
    · rw [chunks_of_le hfits]
      exact List.cons_ne_nil _ _
    · rw [chunks_of_lt (not_le.1 hfits)]
      exact List.map_eq_nil_iff.not.2 (hardCutText_ne_nil h (not_le.1 hfits))

theorem endText_chunks (h : 4 ≤ hardMax) (carry fresh : List (List Char)) (dropped : ℕ) :
    endText [] ((window carry dropped fresh).chunks hardMax) <:+ joinParas (carry.drop dropped ++ fresh) := by
  by_cases hfits : (window carry dropped fresh).bytes ≤ hardMax
  · rw [chunks_of_le hfits]
    exact List.suffix_rfl
  · have hsuffix := endText_isSuffix (hardCutText_ne_nil h (not_le.1 hfits)) []
    rw [chunks_of_lt (not_le.1 hfits)]
    rwa [(hardCutText_spec h _).1] at hsuffix

theorem joinParas_isSuffix {paras paras' : List (List Char)} (h : paras <:+ paras') :
    joinParas paras <:+ joinParas paras' := by
  obtain ⟨front, rfl⟩ := h
  by_cases hne : paras = []
  · rw [hne]
    exact List.nil_suffix
  · rw [joinParas_append hne]
    exact List.suffix_append _ _

theorem joinParas_isPrefix (carry fresh : List (List Char)) : joinParas carry <+: joinParas (carry ++ fresh) := by
  by_cases hfresh : fresh = []
  · rw [hfresh, List.append_nil]
  by_cases hcarry : carry = []
  · rw [hcarry]
    exact List.nil_prefix
  · rw [joinParas_append hfresh, if_neg (List.isEmpty_iff.not.2 hcarry), List.append_assoc]
    exact List.prefix_append _ _

theorem overlap_eq_zero (h : b.carry = []) : ∀ c ∈ b.chunks hardMax, c.2 = 0 := by
  have hresults : ∀ r ∈ b.results hardMax, r.2 = 0 := by
    intro r hr
    cases b with
    | oversized para =>
      obtain ⟨piece, -, rfl⟩ := List.mem_map.1 hr
      rfl
    | window carry dropped fresh =>
      obtain rfl : carry = [] := h
      rw [List.mem_singleton.1 hr]
      rfl
  intro c hc
  obtain ⟨r, hr, hc⟩ := List.mem_flatMap.1 hc
  unfold bound at hc
  split_ifs at hc
  · rw [List.mem_singleton.1 hc]
    exact hresults r hr
  · obtain ⟨text, -, rfl⟩ := List.mem_map.1 hc
    rfl

theorem linked_chunks (h : 4 ≤ hardMax) {a : Block} (hlost : ¬b.Lost hardMax) (hcarry : b.carry <:+ a.paras) :
    Linked (endText [] (a.chunks hardMax)) (b.chunks hardMax) ↔ ¬Severed hardMax a b := by
  cases b with
  | oversized para =>
    exact iff_of_true (linked_of_zero (overlap_eq_zero rfl) _)
      fun hsevered => absurd hsevered.2 (Nat.not_lt_zero _)
  | window carry dropped fresh =>
    by_cases hfits : (window carry dropped fresh).bytes ≤ hardMax
    · have hdropped : dropped = 0 := by
        by_contra hne
        exact hlost ⟨hne, hfits⟩
      subst hdropped
      have htake : (joinParas (carry ++ fresh)).take (parasLen carry) = joinParas carry := by
        rw [← length_joinParas]
        exact (List.prefix_iff_eq_take.1 (joinParas_isPrefix carry fresh)).symm
      have hle : parasLen carry ≤ (joinParas (carry ++ fresh)).length := by
        rw [← length_joinParas]
        exact (joinParas_isPrefix carry fresh).length_le
      have hends : (joinParas carry).length ≤ (endText [] (a.chunks hardMax)).length →
          joinParas carry <:+ endText [] (a.chunks hardMax) := by
        intro hlen
        cases a with
        | oversized para =>
          obtain rfl : carry = [] := List.suffix_nil.1 hcarry
          exact List.nil_suffix
        | window carry' dropped' fresh' =>
          exact List.suffix_of_suffix_length_le (joinParas_isSuffix hcarry) (endText_chunks h carry' fresh' dropped') hlen
      have hcounted : overlapPrefixLen (window carry 0 fresh).carry = (joinParas carry).length :=
        (overlapPrefixLen_eq carry).trans (length_joinParas carry).symm
      rw [chunks_of_le hfits, List.drop_zero, Linked, htake, Severed, and_iff_right hfits, not_lt, hcounted]
      exact ⟨fun hlinked => hlinked.1.2.length_le, fun hlen => ⟨⟨hle, hends hlen⟩, trivial⟩⟩
    · rw [chunks_of_lt (not_le.1 hfits)]
      exact iff_of_true (linked_of_zero (by simp) _) fun hsevered => hfits hsevered.1

end Block

/-! ## The whole text -/

/-- What a split of a text is for: chunks within the limit, each starting with what the one before ends with, that are the
text without it. -/
structure Covers (hardMax : ℕ) (text : List Char) (chunks : List (List Char × ℕ)) : Prop where
  bounded : ∀ c ∈ chunks, (encode c.1).length ≤ hardMax
  linked : Linked [] chunks
  once : kept chunks = Text.visible text

/-- No window misses a carried paragraph that is counted, none with carried paragraphs is cut, and what is carried from
one that is cut is in its last piece. -/
structure Clean (hardMax : ℕ) (bs : List Block) : Prop where
  lost : ∀ b ∈ bs, ¬b.Lost hardMax
  repeated : ∀ b ∈ bs, ¬b.Repeated hardMax
  severed : bs.IsChain fun a b => ¬Block.Severed hardMax a b

theorem bound_le (h : 4 ≤ hardMax) {chunk c : List Char × ℕ} (hc : c ∈ bound hardMax chunk) :
    (encode c.1).length ≤ hardMax := by
  unfold bound at hc
  split_ifs at hc with hfits
  · rw [List.mem_singleton.1 hc]
    exact hfits
  · obtain ⟨piece, hpiece, rfl⟩ := List.mem_map.1 hc
    exact ((hardCutText_spec h chunk.1).2 piece hpiece).2

theorem linked_blocks (h : 4 ≤ hardMax) {a : Block} (hsound : ∀ b ∈ bs, b.Sound)
    (hlost : ∀ b ∈ bs, ¬b.Lost hardMax) (hfollows : Follows a.paras bs) :
    Linked (endText [] (a.chunks hardMax)) (bs.flatMap (·.chunks hardMax)) ↔
      (a :: bs).IsChain fun a b => ¬Block.Severed hardMax a b := by
  induction bs generalizing a with
  | nil => exact iff_of_true trivial (List.isChain_singleton a)
  | cons b bs ih =>
    obtain ⟨hb, hsound⟩ := List.forall_mem_cons.1 hsound
    obtain ⟨hlostb, hlost⟩ := List.forall_mem_cons.1 hlost
    rw [List.flatMap_cons, linked_append, Block.linked_chunks h hlostb hfollows.1,
      endText_of_ne_nil (Block.chunks_ne_nil h hb) _ [], ih hsound hlost hfollows.2, List.isChain_cons_cons]

theorem linked_nil_blocks (h : 4 ≤ hardMax) (hsound : ∀ b ∈ bs, b.Sound)
    (hlost : ∀ b ∈ bs, ¬b.Lost hardMax) (hfollows : Follows [] bs) :
    Linked [] (bs.flatMap (·.chunks hardMax)) ↔ bs.IsChain fun a b => ¬Block.Severed hardMax a b := by
  cases bs with
  | nil => exact iff_of_true trivial List.isChain_nil
  | cons b bs =>
    have hfirst : Linked [] (b.chunks hardMax) :=
      linked_of_zero (Block.overlap_eq_zero (List.suffix_nil.1 hfollows.1)) []
    rw [List.flatMap_cons, linked_append, and_iff_right hfirst]
    exact linked_blocks h (List.forall_mem_cons.1 hsound).2 (List.forall_mem_cons.1 hlost).2 hfollows.2

theorem kept_flatMap (bs : List Block) :
    kept (bs.flatMap (·.chunks hardMax)) = bs.flatMap fun b => kept (b.chunks hardMax) := by
  induction bs with
  | nil => rfl
  | cons b bs ih => rw [List.flatMap_cons, kept_append, ih, List.flatMap_cons]

theorem visible_flatMap (bs : List Block) :
    Text.visible (bs.flatMap Block.fresh).flatten = bs.flatMap fun b => Text.visible b.fresh.flatten := by
  induction bs with
  | nil => rfl
  | cons b bs ih => rw [List.flatMap_cons, List.flatten_append, Text.visible_append, ih, List.flatMap_cons]

theorem length_flatMap_lt {f g : Block → List Char} (hle : ∀ b ∈ bs, (f b).length ≤ (g b).length)
    (hlt : ∃ b ∈ bs, (f b).length < (g b).length) : (bs.flatMap f).length < (bs.flatMap g).length := by
  rw [List.length_flatMap, List.length_flatMap]
  exact List.sum_lt_sum _ _ hle hlt

/-- A text is covered when its blocks are clean; and only then, unless something is lost and something is repeated. -/
theorem splitParagraphs_covers (text : List Char) (targetChars padChars overlap maxBytes : ℕ)
    (h : 4 ≤ hardLimit targetChars padChars maxBytes) :
    let hardMax := hardLimit targetChars padChars maxBytes
    let bs := blocks text hardMax targetChars overlap
    let chunks := splitParagraphs text targetChars padChars overlap maxBytes
    (Clean hardMax bs → Covers hardMax text chunks) ∧
      (Covers hardMax text chunks →
        Clean hardMax bs ∨ (∃ b ∈ bs, b.Lost hardMax) ∧ ∃ b ∈ bs, b.Repeated hardMax) := by
  intro hardMax bs chunks
  have hinv := inv_blocks text hardMax targetChars overlap
  have hchunks : chunks = bs.flatMap (·.chunks hardMax) := splitParagraphs_eq text targetChars padChars overlap maxBytes
  have hbounded : ∀ c ∈ chunks, (encode c.1).length ≤ hardMax := by
    intro c hc
    obtain ⟨b, -, hc⟩ := List.mem_flatMap.1 (hchunks ▸ hc)
    obtain ⟨r, -, hc⟩ := List.mem_flatMap.1 hc
    exact bound_le h hc
  have hkept : kept chunks = bs.flatMap fun b => kept (b.chunks hardMax) := by rw [hchunks, kept_flatMap]
  have htext : Text.visible text = bs.flatMap fun b => Text.visible b.fresh.flatten := by
    rw [← visible_flatMap, fresh_blocks, visible_paragraphs]
  have hlinked : (∀ b ∈ bs, ¬b.Lost hardMax) →
      (Linked [] chunks ↔ bs.IsChain fun a b => ¬Block.Severed hardMax a b) := fun hlost => by
    rw [hchunks]
    exact linked_nil_blocks h hinv.sound hlost hinv.follows
  constructor
  · rintro ⟨hlost, hrepeated, hsevered⟩
    refine ⟨hbounded, (hlinked hlost).2 hsevered, ?_⟩
    rw [hkept, htext]
    exact List.flatMap_congr fun b hb => Block.kept_chunks h b (hlost b hb) (hrepeated b hb)
  · rintro ⟨-, hlinks, honce⟩
    have hsame : bs.flatMap (fun b => kept (b.chunks hardMax)) = bs.flatMap fun b => Text.visible b.fresh.flatten := by
      rw [← hkept, honce, htext]
    by_cases hlost : ∃ b ∈ bs, b.Lost hardMax
    · by_cases hrepeated : ∃ b ∈ bs, b.Repeated hardMax
      · exact .inr ⟨hlost, hrepeated⟩
      · -- Something is lost, and nothing makes up for it.
        push Not at hrepeated
        obtain ⟨b, hb, hblost⟩ := hlost
        have hlt := length_flatMap_lt (fun b hb => Block.length_kept_le h (hinv.sound b hb) (hrepeated b hb))
          ⟨b, hb, Block.length_kept_lt (hinv.sound b hb) hblost⟩
        exact absurd (congrArg List.length hsame) hlt.ne
    · push Not at hlost
      refine .inl ⟨hlost, fun b hb hrepeated => ?_, (hlinked hlost).1 hlinks⟩
      have hlt := length_flatMap_lt (fun b hb => Block.le_length_kept h (hinv.sound b hb) (hlost b hb))
        ⟨b, hb, Block.lt_length_kept h (hinv.sound b hb) hrepeated⟩
      exact absurd (congrArg List.length hsame) hlt.ne'

theorem splitBlankLines_pair : splitBlankLines [] (Text.strip "ab\n\ncd".toList) = ["ab".toList, "cd".toList] := by
  have hstrip : Text.strip "ab\n\ncd".toList = ['a', 'b', '\n', '\n', 'c', 'd'] := by decide
  rw [hstrip]
  simp [splitBlankLines]

/-- Two paragraphs that fit are one chunk, behind which what is carried stands again. -/
theorem splitParagraphs_covers_pair : Covers 8 "ab\n\ncd".toList (splitParagraphs "ab\n\ncd".toList 4 4 1 10443) := by
  have hblocks : blocks "ab\n\ncd".toList 8 4 1 =
      [.window [] 0 ["ab".toList, "cd".toList], .window ["cd".toList] 0 []] := by
    rw [blocks, paragraphs, splitBlankLines_pair]
    rfl
  refine (splitParagraphs_covers "ab\n\ncd".toList 4 4 1 10443 (by decide)).1 ?_
  change Clean 8 (blocks "ab\n\ncd".toList 8 4 1)
  rw [hblocks]
  have hfits : (Block.window ["cd".toList] 0 []).bytes ≤ 8 := by decide
  have hcut : ¬(Block.window ["cd".toList] 0 []).Repeated 8 := fun hrepeated => not_lt.2 hfits hrepeated.2
  refine ⟨by simp [Block.Lost, Block.dropped], List.forall_mem_cons.2 ⟨fun h => h.1 rfl, by simpa using hcut⟩, ?_⟩
  rw [List.isChain_pair, Block.Severed, Block.chunks_of_le (by decide)]
  decide

/-- A paragraph behind one that is taken off is counted as carried, and is not in the text again. -/
theorem splitParagraphs_loses : ¬∀ (text : List Char) (targetChars padChars overlap maxBytes : ℕ), 0 < targetChars →
    1 ≤ overlap → 4 ≤ hardLimit targetChars padChars maxBytes → Covers (hardLimit targetChars padChars maxBytes) text
      (splitParagraphs text targetChars padChars overlap maxBytes) := by
  intro h
  have hchunks : splitParagraphs "ab\n\ncd".toList 4 0 1 10443 = [("ab".toList, 0), ("cd".toList, 2)] := by
    rw [splitParagraphs, splitBlankLines_pair]
    rfl
  have honce := (h "ab\n\ncd".toList 4 0 1 10443 (by decide) le_rfl (by decide)).once
  rw [hchunks] at honce
  exact absurd honce (by decide)

end LlmGateway.Rag
