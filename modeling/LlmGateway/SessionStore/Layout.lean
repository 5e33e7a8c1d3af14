import LlmGateway.SessionStore.Sections
import LlmGateway.SessionStore.Transcript

/-!
# The layout of a transcript

A transcript is its title and pieces, each a heading, a blank line and parts. Both readers cut it into these pieces:
the section loop of the transcript (`iterSections_pieces`) and the headings of the markdown text
(`headings_pieces`). What they need of a piece is that its parts are passed over, quiet lines because they begin
nothing, and a wrapped body because no line in it closes its fences.
-/

namespace LlmGateway.SessionStore

open Text

variable {W : WordClass}

/-! ## Lines that begin nothing -/

/-- Stripped single-line text that is no heading and no fence line. -/
structure Plain (W : WordClass) (s : List Char) : Prop where
  stripped : Stripped s
  single : SingleLine s
  not_fence : isFenceLine W s = false
  not_heading : atxHeading s = none

/-- A line that neither reader stops at. -/
structure Quiet (W : WordClass) (s : List Char) : Prop where
  single : SingleLine s
  not_fence : isFenceLine W s = false
  not_heading : atxHeading s = none
  not_section : "## ".toList.isPrefixOf s = false

variable {s : List Char} {c : Char}

theorem atxHeading_section_ne_none (h : s.dropWhile isBlank ≠ []) :
    atxHeading ('#' :: '#' :: ' ' :: s) ≠ none := by
  have hheading : atxHeading (List.replicate 2 '#' ++ ' ' :: s) = some (2, strip (lazyText (s.dropWhile isBlank))) := by
    rw [atxHeading_replicate (by decide), if_neg (by decide), if_neg (by simp [h])]
  exact fun hnone => Option.some_ne_none _ (hheading.symm.trans hnone)

theorem isPrefixOf_section (h : "## ".toList.isPrefixOf s = true) :
    ∃ t, s = '#' :: '#' :: ' ' :: t := by
  obtain ⟨t, ht⟩ := List.isPrefixOf_iff_prefix.1 h
  exact ⟨t, ht.symm⟩

theorem dropWhile_isBlank_ne_nil (hmem : c ∈ s) (hc : isBlank c = false) :
    s.dropWhile isBlank ≠ [] := fun h => by
  have hall := List.dropWhile_eq_nil_iff.1 h c hmem
  rw [hc] at hall
  cases hall

theorem isSpace_of_isBlank (h : isBlank c = true) : Json.isSpace c = true := by
  rw [isBlank, Bool.or_eq_true, beq_iff_eq, beq_iff_eq] at h
  obtain rfl | rfl := h <;> decide

theorem exists_not_isBlank {t : List Char} (h : Stripped (s ++ t)) (hne : t ≠ []) :
    ∃ c ∈ t, isBlank c = false := by
  obtain ⟨t, c, rfl⟩ := (List.eq_nil_or_concat' t).resolve_left hne
  refine ⟨c, by simp, ?_⟩
  by_contra hc
  rw [Bool.not_eq_false] at hc
  have hr := h.rstrip_eq
  rw [← List.append_assoc, rstrip_append_single, if_pos (isSpace_of_isBlank hc)] at hr
  have hlen := (rstrip_isPrefix (s ++ t)).length_le
  rw [hr, List.length_append, List.length_singleton] at hlen
  omega

theorem Plain.quiet (h : Plain W s) : Quiet W s := by
  refine ⟨h.single, h.not_fence, h.not_heading, ?_⟩
  by_contra hsection
  rw [Bool.not_eq_false] at hsection
  obtain ⟨t, rfl⟩ := isPrefixOf_section hsection
  have hne : t ≠ [] := by
    rintro rfl
    exact absurd h.stripped (by rw [Stripped]; decide)
  obtain ⟨c, hmem, hc⟩ := exists_not_isBlank (s := ['#', '#', ' ']) h.stripped hne
  exact atxHeading_section_ne_none (dropWhile_isBlank_ne_nil hmem hc) h.not_heading

theorem isFenceLine_of_ne (hspace : Json.isSpace c = false) (hc : ¬ (c = '\x60' ∨ c = '~'))
    (s : List Char) : isFenceLine W (c :: s) = false := by
  rw [isFenceLine, parseFenceOpen, strip_cons_of_not_isSpace hspace, rstrip_cons_of_not_isSpace hspace]
  simp only [if_neg hc]
  rfl

theorem isFenceLine_of_mem (hword : W.isWord c = false)
    (hc : c ≠ '\x60' ∧ c ≠ '~') (hmem : c ∈ strip s) : isFenceLine W s = false := by
  rw [isFenceLine, parseFenceOpen]
  split
  · rfl
  · rename_i d t hs
    rw [hs] at hmem
    split
    · rename_i hd
      have hlang : c ∈ (d :: t).dropWhile fun e => e == d := by
        rw [← List.takeWhile_append_dropWhile (p := fun e => e == d) (l := d :: t), List.mem_append] at hmem
        refine hmem.resolve_left fun htake => ?_
        have hcd : c = d := beq_iff_eq.1 (List.mem_takeWhile_imp (p := fun e => e == d) htake)
        obtain rfl | rfl := hd
        · exact hc.1 hcd
        · exact hc.2 hcd
      have hall : ((d :: t).dropWhile fun e => e == d).all W.isWord = false :=
        List.all_eq_false.2 ⟨c, hlang, by simp [hword]⟩
      simp only [hall]
      rfl
    · rfl

/-! ## Lines of a key and a value -/

/-- `f"{key}: {val}"`. -/
def metaText (e : List Char × List Char) : List Char := e.1 ++ ": ".toList ++ e.2

theorem metaText_eq (e : List Char × List Char) : metaText e = e.1 ++ ':' :: ' ' :: e.2 := by
  rw [metaText, List.append_assoc]
  rfl

theorem strip_append_colon {k : List Char} (hk : Stripped k) (s : List Char) :
    strip (k ++ ':' :: s) = k ++ ':' :: rstrip s := by
  have hcolon : rstrip (':' :: s) = ':' :: rstrip s := rstrip_cons_of_not_isSpace (by decide) s
  cases k with
  | nil => rw [List.nil_append, strip_cons_of_not_isSpace (by decide), hcolon, List.nil_append]
  | cons c k =>
    rw [List.cons_append, strip_cons_of_not_isSpace hk.head, ← List.cons_append,
      rstrip_append_of_ne (by rw [hcolon]; exact List.cons_ne_nil _ _), hcolon]

theorem atxHeading_append_colon {k : List Char} (hk : Stripped k) (h : atxHeading k = none) (s : List Char) :
    atxHeading (k ++ ':' :: s) = none := by
  obtain ⟨n, r, rfl, hr⟩ : ∃ n r, k = List.replicate n '#' ++ r ∧ ∀ d ∈ r.head?, d ≠ '#' := by
    refine ⟨(k.takeWhile fun c => c == '#').length, k.dropWhile fun c => c == '#', ?_, ?_⟩
    · conv_lhs => rw [← List.takeWhile_append_dropWhile (p := fun c => c == '#') (l := k)]
      congr 1
      exact List.eq_replicate_iff.2 ⟨rfl, fun c hc => beq_iff_eq.1 (List.mem_takeWhile_imp (p := fun c => c == '#') hc)⟩
    · intro d hd
      have hnot := List.head?_dropWhile_not (fun c => c == '#') k
      rw [Option.mem_def] at hd
      rw [hd] at hnot
      simpa using hnot
  cases r with
  | nil => rw [List.append_nil, atxHeading_replicate (by decide), if_pos (.inr (.inr (by decide)))]
  | cons d r =>
    have hd : d ≠ '#' := hr d rfl
    rw [List.append_assoc, List.cons_append, atxHeading_replicate hd]
    rw [atxHeading_replicate hd] at h
    split at h
    · rw [if_pos ‹_›]
    · rename_i hopen
      have hblank : isBlank d = true := by
        by_contra hb
        exact hopen (.inr (.inr (by simpa using hb)))
      -- The key ends with no blank, so a text stands behind its hashes.
      obtain ⟨c, hmem, hc⟩ := exists_not_isBlank hk (List.cons_ne_nil d r)
      have hmem : c ∈ r := (List.mem_cons.1 hmem).resolve_left fun hcd => by
        rw [hcd, hblank] at hc
        cases hc
      rw [if_neg (by simpa using ⟨c, hmem, hc⟩)] at h
      cases h

theorem metaText_quiet {e : List Char × List Char} (hk : Plain W e.1) (hv : SingleLine e.2) :
    Quiet W (metaText e) := by
  have hheading : atxHeading (metaText e) = none := by
    rw [metaText_eq]
    exact atxHeading_append_colon hk.stripped hk.not_heading _
  refine ⟨fun c hc => ?_, ?_, hheading, ?_⟩
  · rw [metaText_eq, List.mem_append, List.mem_cons, List.mem_cons] at hc
    obtain hc | rfl | rfl | hc := hc
    · exact hk.single c hc
    · decide
    · decide
    · exact hv c hc
  · refine isFenceLine_of_mem (c := ':') ?_ (by decide) ?_
    · rw [W.ascii _ (by decide)]
      decide
    · rw [metaText_eq, strip_append_colon hk.stripped]
      exact List.mem_append_right _ List.mem_cons_self
  · by_contra hsection
    rw [Bool.not_eq_false] at hsection
    obtain ⟨t, ht⟩ := isPrefixOf_section hsection
    have hcolon : ':' ∈ t := by
      have hmem : ':' ∈ metaText e := by
        rw [metaText_eq]
        exact List.mem_append_right _ List.mem_cons_self
      simpa [ht] using hmem
    rw [ht] at hheading
    exact atxHeading_section_ne_none (dropWhile_isBlank_ne_nil hcolon (by decide)) hheading

/-! ## Parts that are passed over -/

/-- Cut at newlines. -/
def cut (parts : List (List Char)) : List (List Char) := parts.flatMap fun s => s.splitOn '\n'

theorem cut_append (parts parts' : List (List Char)) : cut (parts ++ parts') = cut parts ++ cut parts' :=
  List.flatMap_append

/-- Neither reader begins anything in these parts. -/
structure Passed (W : WordClass) (parts : List (List Char)) : Prop where
  scan : ∀ head body rest, iterSections W ⟨none, some head, body⟩ (cut parts ++ rest) =
    iterSections W ⟨none, some head, body ++ cut parts⟩ rest
  silent : ∀ t, headings W none (splitlines (unlines parts ++ t)) = headings W none (splitlines t)

namespace Passed

theorem nil : Passed W [] :=
  ⟨fun head body rest => by rw [cut, List.flatMap_nil, List.nil_append, List.append_nil], fun t => rfl⟩

variable {parts : List (List Char)}

theorem append {parts' : List (List Char)} (h : Passed W parts) (h' : Passed W parts') :
    Passed W (parts ++ parts') := by
  refine ⟨fun head body rest => ?_, fun t => ?_⟩
  · rw [cut_append, List.append_assoc, h.scan, h'.scan, List.append_assoc]
  · rw [unlines_append, List.append_assoc, h.silent, h'.silent]

theorem cons {s : List Char} (h : Passed W [s]) (h' : Passed W parts) :
    Passed W (s :: parts) := h.append h'

theorem of_forall (h : ∀ s ∈ parts, Passed W [s]) : Passed W parts := by
  induction parts with
  | nil => exact nil
  | cons s parts ih => exact cons (h s List.mem_cons_self) (ih fun t ht => h t (List.mem_cons_of_mem _ ht))

end Passed

theorem cut_of_singleLine (h : SingleLine s) : cut [s] = [s] := by
  rw [cut, List.flatMap_cons, List.flatMap_nil, List.append_nil, List.splitOn_eq_singleton h.newline_not_mem]

theorem unlines_singleton (s t : List Char) : unlines [s] ++ t = s ++ '\n' :: t := by
  rw [unlines_cons, List.append_assoc]
  rfl

theorem Quiet.passed (h : Quiet W s) : Passed W [s] := by
  refine ⟨fun head body rest => ?_, fun t => ?_⟩
  · have hplain : (!isFenceLine W s && (none : Option (Char × ℕ)).isNone && "## ".toList.isPrefixOf s) = false := by
      rw [h.not_section, Bool.and_false]
    rw [cut_of_singleLine h.single, List.singleton_append, iterSections,
      if_neg (by rw [hplain]; exact Bool.false_ne_true), Scan.feed, if_neg (by simp [h.not_fence])]
    rfl
  · rw [unlines_singleton, splitlines_singleLine_newline h.single, headings_line h.single h.not_fence, h.not_heading]
    rfl

theorem quiet_nil : Quiet W [] := ⟨fun c hc => (by cases hc), rfl, rfl, rfl⟩

theorem cut_wrapFenced (W : WordClass) (body : List Char) : cut [wrapFenced W body] = wrapLines W body := by
  have hopening : '\n' ∉ openingFence W body := by
    rw [openingFence, List.mem_append, not_or]
    refine ⟨fun hmem => ?_, by decide⟩
    have hbreak := not_isBreak_chooseFenceChar body
    rw [← List.eq_of_mem_replicate hmem] at hbreak
    exact absurd hbreak (by decide)
  have hclosing : '\n' ∉ closingFence W body := fun hmem => by
    have hbreak := not_isBreak_chooseFenceChar body
    rw [← List.eq_of_mem_replicate hmem] at hbreak
    exact absurd hbreak (by decide)
  rw [cut, List.flatMap_cons, List.flatMap_nil, List.append_nil, wrapFenced, List.append_assoc, List.cons_append,
    List.splitOn_append_cons_self, List.splitOn_append_cons_self, List.splitOn_eq_singleton hopening,
    List.splitOn_eq_singleton hclosing, wrapLines]
  rfl

theorem iterSections_inside {fence : Char × ℕ} {head : Head} {body lines rest : List (List Char)}
    (h : ∀ line ∈ lines, isClosingFenceLine line fence.1 fence.2 = false) :
    iterSections W ⟨some fence, some head, body⟩ (lines ++ rest) =
      iterSections W ⟨some fence, some head, body ++ lines⟩ rest := by
  induction lines generalizing body with
  | nil => rw [List.nil_append, List.append_nil]
  | cons line lines ih =>
    have hfeed : (⟨some fence, some head, body⟩ : Scan).feed W line = ⟨some fence, some head, body ++ [line]⟩ := by
      rw [Scan.feed]
      split
      · simp only [Scan.fenceLine, if_neg (Bool.eq_false_iff.1 (h line List.mem_cons_self))]
      · rfl
    rw [List.cons_append, iterSections, if_neg (by simp), hfeed, ih fun l hl => h l (List.mem_cons_of_mem _ hl),
      List.append_assoc]
    rfl

theorem passed_wrapFenced (W : WordClass) (body : List Char) : Passed W [wrapFenced W body] := by
  refine ⟨fun head before rest => ?_, fun t => ?_⟩
  · have hopening : isFenceLine W (openingFence W body) = true := by
      rw [isFenceLine, parseFenceOpen_openingFence]
      rfl
    have hclosing : isFenceLine W (closingFence W body) = true := by
      rw [isFenceLine, parseFenceOpen_closingFence]
      rfl
    have hopen : (⟨none, some head, before⟩ : Scan).feed W (openingFence W body) =
        ⟨some (chooseFenceChar body, fenceLength W body (chooseFenceChar body)), some head,
          before ++ [openingFence W body]⟩ := by
      rw [Scan.feed, if_pos hopening]
      simp only [Scan.fenceLine, parseFenceOpen_openingFence, Option.map_some]
    have hclose : ∀ lines, (⟨some (chooseFenceChar body, fenceLength W body (chooseFenceChar body)), some head,
        lines⟩ : Scan).feed W (closingFence W body) = ⟨none, some head, lines ++ [closingFence W body]⟩ := fun lines => by
      rw [Scan.feed, if_pos hclosing]
      simp only [Scan.fenceLine, if_pos (isClosingFenceLine_closingFence W body)]
    rw [cut_wrapFenced, wrapLines, List.cons_append, iterSections, if_neg (by simp [hopening]), hopen,
      List.append_assoc, iterSections_inside fun line hline =>
        not_isClosingFenceLine_of_isInfix (isInfix_of_mem_splitOn hline), List.singleton_append, iterSections,
      if_neg (by simp [hclosing]), hclose]
    rw [List.append_assoc, List.append_assoc]
    rfl
  · have hlines : SingleLine (openingFence W body) ∧ SingleLine (closingFence W body) := by
      have hrow : ∀ n, SingleLine (List.replicate n (chooseFenceChar body)) := fun n c hc => by
        rw [List.eq_of_mem_replicate hc]
        exact not_isBreak_chooseFenceChar body
      refine ⟨fun c hc => ?_, hrow _⟩
      obtain hc | hc := List.mem_append.1 hc
      · exact hrow _ c hc
      · exact (show SingleLine lang by decide) c hc
    rw [unlines_singleton, wrapFenced]
    simp only [List.append_assoc, List.cons_append]
    rw [splitlines_singleLine_newline hlines.1, splitlines_newline, splitlines_singleLine_newline hlines.2]
    exact headings_wrapped W body _

/-! ## Pieces -/

/-- A heading with what stands under it. -/
structure Piece where
  heading : List Char
  head : Head
  parts : List (List Char)

namespace Piece

/-- The parts of a piece with its heading, its blank lines before and behind. -/
def allParts (p : Piece) : List (List Char) := p.heading :: [] :: (p.parts ++ [[]])

/-- The lines of the section. -/
def content (p : Piece) : List (List Char) := [] :: (cut p.parts ++ [[]])

/-- The heading begins a section, and the parts are passed over. -/
structure Fits (W : WordClass) (p : Piece) : Prop where
  single : SingleLine p.heading
  not_fence : isFenceLine W p.heading = false
  isSection : "## ".toList.isPrefixOf p.heading = true
  headOf_eq : headOf (strip p.heading) = some p.head
  isHeading : (atxHeading p.heading).isSome = true
  passed : Passed W p.parts

variable {p : Piece}

theorem cut_content (p : Piece) : cut ([] :: (p.parts ++ [[]])) = p.content := by
  have hnil : cut [[]] = [[]] := rfl
  have hcons : cut ([] :: (p.parts ++ [[]])) = cut [[]] ++ cut (p.parts ++ [[]]) := cut_append [[]] _
  rw [hcons, cut_append, hnil]
  rfl

theorem cut_allParts (h : p.Fits W) : cut p.allParts = p.heading :: p.content := by
  have hcons : cut p.allParts = cut [p.heading] ++ cut ([] :: (p.parts ++ [[]])) := cut_append [p.heading] _
  rw [hcons, cut_of_singleLine h.single, cut_content]
  rfl

theorem Fits.passed_content (h : p.Fits W) : Passed W ([] :: (p.parts ++ [[]])) :=
  .cons quiet_nil.passed (h.passed.append quiet_nil.passed)

end Piece

/-- The parts of the pieces. -/
def piecesParts (pieces : List Piece) : List (List Char) := pieces.flatMap Piece.allParts

theorem cut_piecesParts_cons (p : Piece) (pieces : List Piece) :
    cut (piecesParts (p :: pieces)) = cut p.allParts ++ cut (piecesParts pieces) := by
  rw [piecesParts, List.flatMap_cons, cut_append]
  rfl

/-- **The sections of the pieces**, behind what is read so far. -/
theorem iterSections_pieces {pieces : List Piece} (h : ∀ p ∈ pieces, p.Fits W) (x : Scan) (hfence : x.fence = none)
    (hbody : x.current = none → x.body = []) :
    iterSections W x (cut (piecesParts pieces)) = (x.flush ++ pieces.map fun p => (p.head, p.content), none) := by
  induction pieces generalizing x with
  | nil =>
    rw [List.map_nil, List.append_nil]
    rfl
  | cons p pieces ih =>
    have hp := h p List.mem_cons_self
    have henter : x.enter p.head = ⟨none, some p.head, []⟩ := by
      rw [Scan.enter, hfence]
      cases hcurrent : x.current with
      | none => rw [hbody hcurrent, ite_self]
      | some head => rfl
    have hbegin : (!isFenceLine W p.heading && x.fence.isNone && "## ".toList.isPrefixOf p.heading) = true := by
      rw [hp.not_fence, hfence, hp.isSection]
      rfl
    rw [cut_piecesParts_cons, Piece.cut_allParts hp, List.cons_append, iterSections, if_pos hbegin, hp.headOf_eq,
      ← Piece.cut_content]
    simp only [henter]
    rw [hp.passed_content.scan, ih (fun q hq => h q (List.mem_cons_of_mem _ hq)) _ rfl fun hnone => (by cases hnone),
      Piece.cut_content]
    simp only [Scan.flush, List.map_cons, List.nil_append, List.singleton_append]

/-- **The headings of the pieces.** -/
theorem headings_pieces {pieces : List Piece} (h : ∀ p ∈ pieces, p.Fits W) :
    headings W none (splitlines (unlines (piecesParts pieces))) =
      pieces.filterMap fun p => atxHeading p.heading := by
  induction pieces with
  | nil => rfl
  | cons p pieces ih =>
    have hp := h p List.mem_cons_self
    have hparts : unlines (piecesParts (p :: pieces)) =
        p.heading ++ '\n' :: (unlines ([] :: (p.parts ++ [[]])) ++ unlines (piecesParts pieces)) := by
      rw [piecesParts, List.flatMap_cons, unlines_append, Piece.allParts, unlines_cons, List.append_assoc,
        List.cons_append]
      rfl
    obtain ⟨found, hfound⟩ := Option.isSome_iff_exists.1 hp.isHeading
    rw [hparts, splitlines_singleLine_newline hp.single, headings_line hp.single hp.not_fence,
      hp.passed_content.silent, ih fun q hq => h q (List.mem_cons_of_mem _ hq), hfound,
      List.filterMap_cons_some (f := fun p : Piece => atxHeading p.heading) hfound]
    rfl

theorem headings_append_newline (W : WordClass) (s : List Char) :
    headings W none (splitlines (s ++ '\n' :: ['\n'])) = headings W none (splitlines (s ++ ['\n'])) := by
  have hblank : ∀ fence, headings W fence (splitlines ['\n']) = [] := fun fence => by
    have hline : splitlines ['\n'] = [['\n']] := rfl
    have hnone : headingOf W fence ['\n'] = none := by
      rw [headingOf]
      split <;> rfl
    rw [hline, headings, hnone]
    rfl
  rw [splitlines_newline, headings_append, hblank, List.append_nil]

end LlmGateway.SessionStore
