import LlmGateway.SessionStore.Sections
import LlmGateway.Foundations.Dict
import LlmGateway.Foundations.Numbering

/-!
# The segments of a journal entry

A dated journal entry is cut at its headings of the first level, and what stands in front of them is a segment of its
own unless it is blank. A segment is known by its anchor, the date with the slug of the heading; a slug that repeats
gets a number. The anchors are distinct just when no slug is written like a numbered one and none like the anchor of
the preamble (`nodup_entryAnchors_iff`).

`str.lower` is a parameter.
-/

namespace LlmGateway.Cortex.Digest

open SessionStore (WordClass Section parseSections charUpto)
open LlmGateway.Text (splitlines strip)

structure Segment where
  entryAnchor : List Char
  heading : List Char
  entryText : List Char

/-! ## Slugs -/

/-- `[a-z0-9]`. -/
def isSlugChar (c : Char) : Bool := ('a' ≤ c && c ≤ 'z') || ('0' ≤ c && c ≤ '9')

/-- `re.sub(p+, "-", s)`; `inRun` when the character in front belongs to a run. -/
def subRuns (p : Char → Bool) (inRun : Bool) : List Char → List Char
  | [] => []
  | c :: s =>
    if p c then if inRun then subRuns p true s else '-' :: subRuns p true s
    else c :: subRuns p false s

/-- `s.strip("-")`. -/
def stripHyphens (s : List Char) : List Char :=
  ((s.dropWhile fun c => c == '-').reverse.dropWhile fun c => c == '-').reverse

def headingToSlug (lower : List Char → List Char) (heading : List Char) : List Char :=
  subRuns (fun c => c == '-') false (stripHyphens (subRuns (fun c => !isSlugChar c) false (lower heading)))

/-- `heading_to_slug(sec.heading) or "section"`. -/
def slugOf (lower : List Char → List Char) (sec : Section) : List Char :=
  let slug := headingToSlug lower sec.heading
  if slug.isEmpty then "section".toList else slug

/-! ## Segments -/

/-- `text[start:end]`. -/
def slice (text : List Char) (start stop : ℕ) : List Char := (text.take stop).drop start

def sectionEntryText (text : List Char) (sec : Section) : List Char :=
  if sec.level = 0 then slice text sec.start sec.stop
  else slice text (charUpto (splitlines text) (sec.line - 1)) sec.stop

/-- `_unique_anchor`: the anchor, and how often each slug was seen. -/
def uniqueAnchor (entryDate slug : List Char) (seen : Dict (List Char) ℕ) : List Char × Dict (List Char) ℕ :=
  let count := seen.getD slug 0 + 1
  (if count = 1 then entryDate ++ '#' :: slug else entryDate ++ '#' :: (slug ++ '-' :: Nat.toDigits 10 count),
    seen.set slug count)

/-- The loop over the sections of the first level. -/
def sectionSegments (lower : List Char → List Char) (text entryDate : List Char) (seen : Dict (List Char) ℕ) :
    List Section → List Segment
  | [] => []
  | sec :: secs =>
    let anchor := uniqueAnchor entryDate (slugOf lower sec) seen
    ⟨anchor.1, sec.heading, sectionEntryText text sec⟩ :: sectionSegments lower text entryDate anchor.2 secs

/-- The text in front of the headings, unless it is blank. -/
def preambleText (W : WordClass) (text : List Char) : Option (List Char) :=
  match (parseSections W text).find? fun s => decide (s.level = 0) with
  | none => none
  | some preamble =>
    let preambleText := slice text preamble.start preamble.stop
    if (strip preambleText).isEmpty then none else some preambleText

/-- The sections of the first level. -/
def topSections (W : WordClass) (text : List Char) : List Section :=
  (parseSections W text).filter fun s => decide (s.level = 1)

def segmentJournalEntry (W : WordClass) (lower : List Char → List Char) (text entryDate : List Char) : List Segment :=
  ((preambleText W text).map fun t => (⟨entryDate ++ '#' :: "preamble".toList, [], t⟩ : Segment)).toList ++
    sectionSegments lower text entryDate ∅ (topSections W text)

/-! ## Anchors -/

/-- No slug is written like a repetition of another, and none like the anchor of a preamble that is there. -/
def SlugsFree (W : WordClass) (lower : List Char → List Char) (text : List Char) : Prop :=
  let slugs := (topSections W text).map (slugOf lower)
  (preambleText W text ≠ none → "preamble".toList ∉ slugs) ∧
    ∀ s k, 2 ≤ k → k ≤ slugs.count s → s ++ '-' :: Nat.toDigits 10 k ∉ slugs

variable {W : WordClass} {lower : List Char → List Char} {text entryDate : List Char}

theorem uniqueAnchor_eq (entryDate slug : List Char) (seen : Dict (List Char) ℕ) :
    uniqueAnchor entryDate slug seen =
      (entryDate ++ '#' :: Numbering.label '-' (slug, seen.getD slug 0 + 1),
        seen.set slug (seen.getD slug 0 + 1)) := by
  simp only [uniqueAnchor, Numbering.label, Numbering.suffixed]
  split_ifs <;> rfl

theorem map_sectionSegments (seen : Dict (List Char) ℕ) (before : List (List Char))
    (hseen : ∀ s, seen.getD s 0 = before.count s) (secs : List Section) :
    (sectionSegments lower text entryDate seen secs).map Segment.entryAnchor =
      ((Numbering.numberedFrom before (secs.map (slugOf lower))).map (Numbering.label '-')).map
        fun l => entryDate ++ '#' :: l := by
  induction secs generalizing seen before with
  | nil => rfl
  | cons sec secs ih =>
    rw [sectionSegments, List.map_cons, uniqueAnchor_eq, List.map_cons, Numbering.numberedFrom, List.map_cons,
      List.map_cons, hseen]
    refine congrArg (_ :: ·) (ih _ (slugOf lower sec :: before) fun s => ?_)
    rw [Dict.getD_set, List.count_cons, hseen]
    by_cases h : slugOf lower sec = s
    · rw [if_pos h.symm, h, beq_self_eq_true, if_pos rfl]
    · rw [if_neg (Ne.symm h), if_neg (by simpa using h), Nat.add_zero]

theorem anchor_injective : Function.Injective fun l : List Char => entryDate ++ '#' :: l := by
  intro l l' h
  exact (List.cons.inj (List.append_cancel_left h)).2

theorem preamble_mem_labels_iff (slugs : List (List Char)) :
    "preamble".toList ∈ (Numbering.numbered slugs).map (Numbering.label '-') ↔ "preamble".toList ∈ slugs := by
  constructor
  · intro hmem
    obtain ⟨⟨s, k⟩, hs, heq⟩ := List.mem_map.1 hmem
    obtain ⟨hk, hcount⟩ := Numbering.mem_numbered.1 hs
    have hmem : s ∈ slugs := List.count_pos_iff.1 (by omega)
    simp only [Numbering.label] at heq
    split_ifs at heq
    · exact heq ▸ hmem
    · have hdash : '-' ∈ "preamble".toList := by
        rw [← heq, Numbering.suffixed]
        exact List.mem_append_right _ (List.mem_cons_self ..)
      exact absurd hdash (by decide)
  · intro hmem
    refine List.mem_map.2 ⟨("preamble".toList, 1), Numbering.mem_numbered.2 ⟨le_rfl, List.count_pos_iff.2 hmem⟩, ?_⟩
    exact if_pos rfl

/-- The anchors of an entry are distinct just when its slugs leave the numbered ones and the preamble free. -/
theorem nodup_entryAnchors_iff (W : WordClass) (lower : List Char → List Char) (text entryDate : List Char) :
    ((segmentJournalEntry W lower text entryDate).map Segment.entryAnchor).Nodup ↔ SlugsFree W lower text := by
  have hsections : (sectionSegments lower text entryDate ∅ (topSections W text)).map Segment.entryAnchor =
      ((Numbering.numberedFrom [] ((topSections W text).map (slugOf lower))).map (Numbering.label '-')).map
        fun l => entryDate ++ '#' :: l :=
    map_sectionSegments ∅ [] (fun _ => rfl) (topSections W text)
  rw [segmentJournalEntry, List.map_append, hsections, ← Numbering.numbered, SlugsFree]
  have hdash : ('-').isDigit = false := by decide
  have hlabels := Numbering.nodup_labels_iff hdash ((topSections W text).map (slugOf lower))
  cases hpreamble : preambleText W text with
  | none =>
    rw [Option.map_none, Option.toList_none, List.map_nil, List.nil_append,
      List.nodup_map_iff anchor_injective, hlabels]
    simp [Numbering.suffixed]
  | some t =>
    rw [Option.map_some, Option.toList_some, List.map_singleton, List.singleton_append, List.nodup_cons,
      List.nodup_map_iff anchor_injective, hlabels,
      List.mem_map_of_injective anchor_injective, preamble_mem_labels_iff]
    simp [Numbering.suffixed]

/-- The third heading is written like the anchor of the second. -/
theorem repeated_heading_clashes : ¬ ∀ (W : WordClass) (lower : List Char → List Char) (text entryDate : List Char),
    ((segmentJournalEntry W lower text entryDate).map Segment.entryAnchor).Nodup := by
  intro h
  have hnodup := h ⟨fun c => c.isAlphanum || c == '_', fun _ _ => rfl⟩ (List.map Char.toLower)
    "# A\n# A\n# A 2\n".toList "2026-07-14".toList
  have hanchors : (segmentJournalEntry ⟨fun c => c.isAlphanum || c == '_', fun _ _ => rfl⟩ (List.map Char.toLower)
      "# A\n# A\n# A 2\n".toList "2026-07-14".toList).map Segment.entryAnchor =
      ["2026-07-14#a".toList, "2026-07-14#a-2".toList, "2026-07-14#a-2".toList] := by decide
  rw [hanchors] at hnodup
  exact (List.nodup_cons.1 (List.nodup_cons.1 hnodup).2).1 (List.mem_cons_self ..)

end LlmGateway.Cortex.Digest
