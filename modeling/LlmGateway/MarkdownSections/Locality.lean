import LlmGateway.MarkdownSections.Layout
import Mathlib.Data.List.Forall2

/-!
# Edits are local

An edit of the body of a section changes that body and no other (`setSectionBody_local`): the sections before and
behind keep their heading, level, path, order and body, but for the bodies of the sections that contain the edited one,
and the edited section keeps its heading. This is so when the line of the heading ends with a newline, the new body has
no heading of the level of the section or above, and it leaves no fence open in front of what is behind.
`section_edits` says it of `replace_section`, `append_section` and `patch_section_body`, and what is read back.
-/

namespace LlmGateway.MarkdownSections

open Text SessionStore

variable {W : WordClass}

/-! ## A cut at a section -/

variable {sec : Section} {text : List Char} {fence : Option (Char × ℕ)}

theorem exists_mem_layout {pairs : List (Found × List Char)}
    (h : sec ∈ layout text [] pairs) : ∃ P q R, pairs = P ++ q :: R ∧ sec = sectionAt text q R := by
  induction pairs with
  | nil => cases h
  | cons q pairs ih =>
    rw [layout, List.append_nil, List.mem_cons] at h
    obtain rfl | h := h
    · exact ⟨[], q, pairs, rfl, rfl⟩
    · obtain ⟨P, q', R, rfl, hsec⟩ := ih h
      exact ⟨q :: P, q', R, rfl, hsec⟩

theorem exists_body (level n o : ℕ) (l : List (List Char)) : ∃ body after, l = body ++ after ∧
    (∀ f ∈ headings W none body, level < f.1) ∧ (after = [] ∨ fenceAfter W none body = none ∧
      ∃ first rest h, after = first :: rest ∧ headingOf W none first = some h ∧ h.1 ≤ level) := by
  have hdeeper : ∀ F : List Found, (∀ f ∈ F, level < f.level) → ∀ g ∈ F.map fun f => (f.level, f.heading), level < g.1 := by
    intro F hF g hg
    obtain ⟨f, hf, rfl⟩ := List.mem_map.1 hg
    exact hF f hf
  have hsplit := (findHeadings W none n o l).takeWhile_append_dropWhile (p := fun f => decide (level < f.level))
  have htake : ∀ f ∈ (findHeadings W none n o l).takeWhile fun f => decide (level < f.level), level < f.level :=
    fun f hf => by simpa using List.mem_takeWhile_imp hf
  cases hdrop : (findHeadings W none n o l).dropWhile fun f => decide (level < f.level) with
  | nil =>
    rw [hdrop, List.append_nil] at hsplit
    refine ⟨l, [], (List.append_nil l).symm, ?_, .inl rfl⟩
    rw [← map_findHeadings W none n o, ← hsplit]
    exact hdeeper _ htake
  | cons g R =>
    rw [hdrop] at hsplit
    obtain ⟨l₁, line, l₂, rfl, hF, hheading, -⟩ := exists_split_of_findHeadings hsplit.symm
    obtain ⟨hfence, -⟩ := fence_of_headingOf hheading
    rw [hfence] at hheading
    refine ⟨l₁, line :: l₂, rfl, ?_, .inr ⟨hfence, line, l₂, _, rfl, hheading, ?_⟩⟩
    · rw [← map_findHeadings W none n o, hF]
      exact hdeeper _ htake
    · have hhead := List.head?_dropWhile_not (fun f : Found => decide (level < f.level))
        (findHeadings W none n o (l₁ ++ line :: l₂))
      rw [hdrop] at hhead
      simpa using hhead

/-- The line of the heading ends with a newline. -/
def EndsWithNewline (text : List Char) (sec : Section) : Prop :=
  ∃ line, (splitlines text)[sec.line - 1]? = some line ∧ line.getLast? = some '\n'

theorem exists_cut (h : sec ∈ parseSections W text) (hlevel : 0 < sec.level)
    (hline : EndsWithNewline text sec) : ∃ c : Cut W, c.text = text ∧ c.sectionOwn = sec := by
  have hpairs : ∀ q ∈ (findHeadings W none 0 0 (splitlines text)).zip (paths [] (findHeadings W none 0 0 (splitlines text))),
      charUpto (splitlines text) (q.1.line - 1) = q.1.offset := by
    intro q hq
    have hoffset := (charUpto_of_mem (List.of_mem_zip hq).1).1
    rwa [Nat.zero_add, Nat.sub_zero] at hoffset
  rw [parseSections, List.mem_cons] at h
  obtain rfl | h := h
  · exact absurd hlevel (Nat.lt_irrefl 0)
  rw [sectionsOf_eq_layout hpairs] at h
  obtain ⟨P, q, R, hzip, rfl⟩ := exists_mem_layout h
  have hfound := congrArg (List.map Prod.fst) hzip
  rw [List.map_fst_zip (length_paths _ _).ge, List.map_append, List.map_cons] at hfound
  obtain ⟨before, line, l, hlines, hbefore, hheading, hown⟩ := exists_split_of_findHeadings hfound
  obtain ⟨body, after, rfl, hdeeper, hnext⟩ := exists_body (W := W) q.1.level 0 0 l
  have hnewline : line.getLast? = some '\n' := by
    obtain ⟨line', hget, hlast⟩ := hline
    have hindex : (sectionAt text q R).line - 1 = before.length := by
      change q.1.line - 1 = _
      rw [hown]
      simp only
      omega
    rw [hindex, hlines, List.getElem?_append_right le_rfl, Nat.sub_self, List.getElem?_cons_zero] at hget
    cases hget
    exact hlast
  have hisLines : splitlines (before ++ line :: (body ++ after)).flatten = before ++ line :: (body ++ after) := by
    rw [← hlines, flatten_splitlines]
  obtain ⟨c, hc, hcbefore⟩ : ∃ c : Cut W, c.lines = splitlines text ∧ c.before = before :=
    ⟨⟨before, line, body, after, q.1.level, q.1.heading, hisLines, hnewline, hheading, hdeeper, hnext⟩, hlines.symm, rfl⟩
  have htext : c.text = text := by rw [Cut.text, hc, flatten_splitlines]
  have hsame := c.zip_paths
  have hlength : P.length = c.pairsBefore.length := by
    have hfst := congrArg List.length hbefore
    rw [List.length_map] at hfst
    rw [Cut.pairsBefore, Cut.found, List.length_zip, length_paths, Nat.min_self, hcbefore, hfst]
  rw [hc, hzip] at hsame
  obtain ⟨-, hrest⟩ := List.append_inj hsame hlength
  obtain ⟨rfl, rfl⟩ := List.cons.inj hrest
  exact ⟨c, htext, by rw [← htext, c.sectionAt_own]⟩

/-! ## Another body -/

/-- The heading, the level and the path are kept. -/
def SameHeading (sec sec' : Section) : Prop :=
  sec'.heading = sec.heading ∧ sec'.level = sec.level ∧ sec'.path = sec.path

/-- What an edit leaves of a section before the edited one. -/
def KeptBefore (text text' : List Char) (sec : Section) (T T' : Section) : Prop :=
  SameHeading T T' ∧ (sec.stop ≤ T.stop ∨ bodyOf text' T' = bodyOf text T)

namespace Cut

variable (c : Cut W)

theorem splitlines_body : splitlines c.body.flatten = c.body := by
  have hsuffix : splitlines (c.body ++ c.after).flatten = c.body ++ c.after := by
    have hlines : splitlines c.text = (c.before ++ [c.line]) ++ (c.body ++ c.after) := by
      rw [List.append_assoc, List.singleton_append]
      exact c.isLines
    exact splitlines_flatten_suffix hlines
  by_cases hafter : c.after = []
  · rwa [hafter, List.append_nil] at hsuffix
  · have hprefix := splitlines_flatten_prefix hsuffix hafter (t := []) (by simp)
    rwa [List.append_nil, splitlines, List.append_nil] at hprefix

theorem splitlines_after : splitlines c.after.flatten = c.after := by
  have hlines : splitlines c.text = (c.before ++ c.line :: c.body) ++ c.after := by
    rw [List.append_assoc, List.cons_append]
    exact c.isLines
  exact splitlines_flatten_suffix hlines

theorem splitlines_line (t : List Char) : splitlines (c.line ++ t) = c.line :: splitlines t :=
  Text.splitlines_line (s := c.text) c.isLines c.newline t

/-- The cut with the lines of another body, which are lines in front of what is behind. -/
def withBody (body : List (List Char)) (hlines : splitlines (body ++ c.after).flatten = body ++ c.after)
    (hdeeper : ∀ f ∈ headings W none body, c.level < f.1) (hfence : c.after = [] ∨ fenceAfter W none body = none) :
    Cut W where
  before := c.before
  line := c.line
  body := body
  after := c.after
  level := c.level
  heading := c.heading
  isLines := by
    have hhash : (c.line ++ (body ++ c.after).flatten).head? ≠ some '\n' := by
      rw [List.head?_append, head_of_headingOf c.isHeading, Option.some_or]
      decide
    have hprefix := splitlines_flatten_prefix (s := c.text) c.isLines (List.cons_ne_nil _ _) hhash
    rw [List.flatten_append, List.flatten_cons, hprefix, splitlines_line, hlines]
  newline := c.newline
  isHeading := c.isHeading
  deeper := hdeeper
  next := c.next.elim .inl fun h => hfence.elim .inl fun hbody => .inr ⟨hbody, h.2⟩

variable {c} {body : List (List Char)} (hlines : splitlines (body ++ c.after).flatten = body ++ c.after)
  (hdeeper : ∀ f ∈ headings W none body, c.level < f.1) (hfence : c.after = [] ∨ fenceAfter W none body = none)

theorem stop_le_stopAt {level : ℕ} (hlevel : level < c.level) :
    c.stop ≤ stopAt c.text level (c.pairsInside ++ c.pairsBehind) := by
  rw [stopAt, List.find?_append]
  have hinside : c.pairsInside.find? (fun g => decide (g.1.level ≤ level)) = none := by
    rw [List.find?_eq_none]
    intro g hg
    have := c.inside_deeper g.1 (List.of_mem_zip hg).1
    rw [decide_eq_true_eq]
    omega
  rw [hinside, Option.none_or]
  cases hfind : c.pairsBehind.find? fun g => decide (g.1.level ≤ level) with
  | none =>
    rw [Option.elim_none, text_eq, List.length_append, length_stop]
    omega
  | some g =>
    obtain ⟨f, -, hf⟩ := List.mem_map.1 (List.of_mem_zip (List.mem_of_find?_eq_some hfind)).1
    rw [Option.elim_some, ← hf]
    exact Nat.le_add_left ..

theorem stopAt_before {P : List (Found × List Char)} (hP : ∀ q ∈ P, q.1.offset ≤ c.before.flatten.length) (level : ℕ) :
    c.stop ≤ stopAt c.text level (P ++ c.pairOwn :: (c.pairsInside ++ c.pairsBehind)) ∨
      (∀ (text : List Char) (R : List (Found × List Char)), stopAt text level (P ++ c.pairOwn :: R) =
        stopAt c.text level (P ++ c.pairOwn :: (c.pairsInside ++ c.pairsBehind))) ∧
      stopAt c.text level (P ++ c.pairOwn :: (c.pairsInside ++ c.pairsBehind)) ≤ c.before.flatten.length := by
  cases hfind : P.find? fun g => decide (g.1.level ≤ level) with
  | some g =>
    have hstop : ∀ text R, stopAt text level (P ++ R) = g.1.offset := by
      intro text R
      rw [stopAt, List.find?_append, hfind]
      rfl
    refine .inr ⟨fun text R => by rw [hstop, hstop], ?_⟩
    rw [hstop]
    exact hP g (List.mem_of_find?_eq_some hfind)
  | none =>
    have hskip : ∀ text R, stopAt text level (P ++ R) = stopAt text level R := by
      intro text R
      rw [stopAt, List.find?_append, hfind]
      rfl
    by_cases hlevel : c.level ≤ level
    · have hstop : ∀ text R, stopAt text level (c.pairOwn :: R) = c.before.flatten.length := by
        intro text R
        rw [stopAt, List.find?_cons_of_pos (by exact decide_eq_true hlevel)]
        rfl
      refine .inr ⟨fun text R => by rw [hskip, hskip, hstop, hstop], ?_⟩
      rw [hskip, hstop]
    · have hstop : ∀ text R, stopAt text level (c.pairOwn :: R) = stopAt text level R := by
        intro text R
        rw [stopAt, List.find?_cons_of_neg (by rw [decide_eq_true_eq]; exact hlevel)]
        rfl
      rw [hskip, hstop]
      exact .inl (stop_le_stopAt (by omega))

theorem lineEnd_before {n : ℕ} (hn : n ≤ c.before.flatten.length) :
    lineEnd (c.withBody body hlines hdeeper hfence).text n = lineEnd c.text n := by
  obtain ⟨t, ht, -⟩ := c.exists_line
  have htext : ∀ b : List (List Char), (c.before.flatten ++ c.line ++ b.flatten) ++ c.after.flatten =
      (c.before.flatten ++ t) ++ '\n' :: (b.flatten ++ c.after.flatten) := by
    intro b
    rw [ht]
    simp
  have hlen : n ≤ (c.before.flatten ++ t).length := by
    rw [List.length_append]
    omega
  rw [text_eq, text_eq c]
  change lineEnd ((c.before.flatten ++ c.line ++ body.flatten) ++ c.after.flatten) n = _
  rw [htext, htext, lineEnd_newline hlen, lineEnd_newline hlen]

theorem bodyOf_before {sec : Section} (hstop : sec.stop ≤ c.before.flatten.length) :
    bodyOf (c.withBody body hlines hdeeper hfence).text sec = bodyOf c.text sec := by
  have htake : ∀ t : List Char, (c.before.flatten ++ t).take sec.stop = c.before.flatten.take sec.stop := fun t =>
    List.take_append_of_le_length hstop
  rw [bodyOf, bodyOf, text_eq, text_eq c]
  simp only [List.append_assoc]
  rw [htake]
  exact congrArg (List.drop sec.start) (htake _)

theorem layout_before {P : List (Found × List Char)} (hP : ∀ q ∈ P, q.1.offset ≤ c.before.flatten.length)
    (R : List (Found × List Char)) :
    List.Forall₂ (KeptBefore c.text (c.withBody body hlines hdeeper hfence).text c.sectionOwn)
      (layout c.text (c.pairOwn :: (c.pairsInside ++ c.pairsBehind)) P)
      (layout (c.withBody body hlines hdeeper hfence).text (c.pairOwn :: R) P) := by
  induction P with
  | nil => exact .nil
  | cons q P ih =>
    rw [List.forall_mem_cons] at hP
    refine .cons ⟨⟨rfl, rfl, rfl⟩, ?_⟩ (ih hP.2)
    obtain hle | ⟨heq, hle⟩ := stopAt_before hP.2 q.1.level
    · exact .inl hle
    · right
      have hstop : (sectionAt c.text q (P ++ c.pairOwn :: (c.pairsInside ++ c.pairsBehind))).stop ≤
          c.before.flatten.length := hle
      have hbody := bodyOf_before hlines hdeeper hfence hstop
      rw [← hbody, sectionAt, sectionAt, lineEnd_before hlines hdeeper hfence hP.1, heq]

theorem offset_le_of_mem {q : Found × List Char} (hq : q ∈ c.pairsBefore) : q.1.offset ≤ c.before.flatten.length := by
  obtain ⟨F, R, hsplit⟩ := List.append_of_mem (List.of_mem_zip hq).1
  obtain ⟨l₁, line, l₂, hbefore, -, -, hf⟩ := exists_split_of_findHeadings hsplit
  rw [hf, hbefore, List.flatten_append, List.length_append]
  simp only
  omega

theorem sectionsBefore_kept :
    List.Forall₂ (KeptBefore c.text (c.withBody body hlines hdeeper hfence).text c.sectionOwn) c.sectionsBefore
      (c.withBody body hlines hdeeper hfence).sectionsBefore := by
  have hhead : (c.found.head?.getD c.own).offset ≤ c.before.flatten.length := by
    cases hfound : c.found with
    | nil => exact le_rfl
    | cons f F =>
      have hpair : ∃ ps, (f, ps) ∈ c.pairsBefore := by
        rw [pairsBefore, hfound, paths, List.zip_cons_cons]
        exact ⟨_, List.mem_cons_self⟩
      exact offset_le_of_mem hpair.choose_spec
  refine .cons ⟨⟨rfl, rfl, rfl⟩, .inr ?_⟩ (layout_before hlines hdeeper hfence (fun q => offset_le_of_mem) _)
  exact bodyOf_before hlines hdeeper hfence hhead

end Cut

theorem bodyOf_move (u t : List Char) (n : ℕ) (sec : Section) : bodyOf (u ++ t) (move n u.length sec) = bodyOf t sec := by
  change ((u ++ t).take (sec.stop + u.length)).drop (sec.start + u.length) = _
  rw [Nat.add_comm sec.stop, Nat.add_comm sec.start, List.take_length_add_append, List.drop_length_add_append, bodyOf]

/-- A section behind is kept. -/
def KeptBehind (text text' : List Char) (sec sec' : Section) : Prop :=
  SameHeading sec sec' ∧ bodyOf text' sec' = bodyOf text sec

namespace Cut

variable (c : Cut W) {body : List (List Char)} (hlines : splitlines (body ++ c.after).flatten = body ++ c.after)
  (hdeeper : ∀ f ∈ headings W none body, c.level < f.1) (hfence : c.after = [] ∨ fenceAfter W none body = none)

theorem sectionsAfter_kept : List.Forall₂ (KeptBehind c.text (c.withBody body hlines hdeeper hfence).text) c.sectionsAfter
    (c.withBody body hlines hdeeper hfence).sectionsAfter := by
  have hmove : ∀ (c : Cut W) (sec : Section), bodyOf c.text (move c.count c.stop sec) = bodyOf c.after.flatten sec := by
    intro c sec
    rw [text_eq, ← length_stop, bodyOf_move]
  rw [sectionsAfter, sectionsAfter, List.forall₂_map_left_iff, List.forall₂_map_right_iff]
  exact List.forall₂_same.2 fun sec _ => ⟨⟨rfl, rfl, rfl⟩, (hmove _ sec).trans (hmove c sec).symm⟩

theorem bodyOf_own : bodyOf c.text c.sectionOwn = c.body.flatten := by
  have hstart : (c.before.flatten ++ c.line).length = c.start := List.length_append
  rw [bodyOf, sectionOwn, text_eq]
  simp only
  rw [← length_stop, List.take_left, ← hstart, List.drop_left]

end Cut

/-! ## Newlines behind a body -/

/-- A fence that can be open: a row of three delimiters or more. -/
def CanBeOpen (fence : Option (Char × ℕ)) : Prop := ∀ p ∈ fence, (p.1 = '\x60' ∨ p.1 = '~') ∧ minFenceLen ≤ p.2

theorem CanBeOpen.next (h : CanBeOpen fence) (line : List Char) :
    CanBeOpen (nextFence W fence line) := by
  intro p hp
  cases fence with
  | none =>
    simp only [nextFence, Option.mem_def, Option.map_eq_some_iff, Option.filter_eq_some_iff, decide_eq_true_eq] at hp
    obtain ⟨⟨c, n, lang⟩, ⟨hopen, hlen⟩, rfl⟩ := hp
    refine ⟨?_, hlen⟩
    unfold parseFenceOpen at hopen
    split at hopen
    · cases hopen
    · simp only [Option.ite_none_right_eq_some] at hopen
      obtain ⟨hc, -, heq⟩ := hopen
      cases heq
      exact hc
  | some q =>
    rw [nextFence] at hp
    split at hp
    · cases hp
    · cases hp
      exact h q rfl

theorem CanBeOpen.after (h : CanBeOpen fence) (lines : List (List Char)) :
    CanBeOpen (fenceAfter W fence lines) := by
  induction lines generalizing fence with
  | nil => exact h
  | cons line lines ih => exact ih (h.next line)

theorem canBeOpen_none : CanBeOpen none := fun p hp => by cases hp

theorem nextFence_newline (h : CanBeOpen fence) : nextFence W fence ['\n'] = fence := by
  cases fence with
  | none => rfl
  | some p =>
    obtain ⟨hc, hlen⟩ := h p rfl
    have hstrip : strip ['\n'] = [] := rfl
    have hclosing : isClosingFenceLine ['\n'] p.1 p.2 = false := by
      rw [isClosingFenceLine, hstrip, beq_eq_false_iff_ne]
      intro heq
      have hzero := congrArg List.length heq
      rw [List.length_nil, List.length_replicate] at hzero
      rw [minFenceLen] at hlen
      omega
    rw [nextFence]
    simp only [hclosing, Bool.false_eq_true, if_false]

theorem nextFence_append_newline (fence : Option (Char × ℕ)) (line : List Char) :
    nextFence W fence (line ++ ['\n']) = nextFence W fence line := by
  cases fence with
  | none => rw [nextFence, nextFence, parseFenceOpen_append_newline]
  | some p => rw [nextFence, nextFence, isClosingFenceLine, isClosingFenceLine, strip_append_newline]

theorem headingOf_append_newline (fence : Option (Char × ℕ)) (line : List Char) :
    headingOf W fence (line ++ ['\n']) = headingOf W fence line := by
  have hchomp : chomp (line ++ ['\n']) = chomp line := by
    rw [chomp, chomp, List.reverse_append, List.reverse_singleton, List.singleton_append, List.dropWhile_cons, if_pos]
    rfl
  rw [headingOf, headingOf, nextFence_append_newline, hchomp]

theorem headings_append_newline (s : List Char) :
    headings W none (splitlines (s ++ ['\n'])) = headings W none (splitlines s) ∧
      fenceAfter W none (splitlines (s ++ ['\n'])) = fenceAfter W none (splitlines s) := by
  obtain h | ⟨l, last, h, h'⟩ := splitlines_append_newline s
  · have hopen := canBeOpen_none.after (W := W) (splitlines s)
    have hline : headingOf W (fenceAfter W none (splitlines s)) ['\n'] = none := by
      unfold headingOf
      split <;> rfl
    constructor
    · rw [h, headings_append, headings, headings, List.append_nil]
      exact (congrArg (headings W none (splitlines s) ++ ·) (congrArg Option.toList hline)).trans (List.append_nil _)
    · rw [h, fenceAfter, List.foldl_append]
      exact nextFence_newline hopen
  · rw [h, h', headings_append, headings_append, fenceAfter, fenceAfter, List.foldl_append, List.foldl_append]
    simp only [headings, List.foldl_cons, List.foldl_nil, headingOf_append_newline, nextFence_append_newline, and_self]

theorem terminated_eq (s : List Char) : ∃ n, terminated s = s ++ List.replicate n '\n' := by
  unfold terminated
  split
  · exact ⟨0, (List.append_nil s).symm⟩
  · exact ⟨1, rfl⟩

theorem padded_eq (body after : List Char) : ∃ n, padded body after = body ++ List.replicate n '\n' := by
  obtain ⟨n, hn⟩ := terminated_eq body
  unfold padded
  simp only [hn]
  split
  · exact ⟨n + 1, by rw [List.append_assoc, List.replicate_succ']⟩
  · exact ⟨n, rfl⟩

theorem headings_append_newlines (s : List Char) (n : ℕ) :
    headings W none (splitlines (s ++ List.replicate n '\n')) = headings W none (splitlines s) ∧
      fenceAfter W none (splitlines (s ++ List.replicate n '\n')) = fenceAfter W none (splitlines s) := by
  induction n with
  | zero =>
    rw [List.replicate_zero, List.append_nil]
    exact ⟨rfl, rfl⟩
  | succ n ih =>
    obtain ⟨hheadings, hfence⟩ := headings_append_newline (W := W) (s ++ List.replicate n '\n')
    rw [List.replicate_succ', ← List.append_assoc, hheadings, hfence]
    exact ih

theorem terminated_ends (s : List Char) : terminated s = [] ∨ (terminated s).getLast? = some '\n' := by
  unfold terminated
  split
  · assumption
  · exact .inr List.getLast?_concat

theorem padded_ends (body after : List Char) : padded body after = [] ∨ (padded body after).getLast? = some '\n' := by
  unfold padded
  simp only
  split
  · exact .inr List.getLast?_concat
  · exact terminated_ends body

theorem splitlines_append {s : List Char} (h : s = [] ∨ s.getLast? = some '\n') (t : List Char) :
    splitlines (s ++ t) = splitlines s ++ splitlines t := by
  obtain rfl | h := h
  · rfl
  · obtain ⟨u, rfl⟩ := List.getLast?_eq_some_iff.1 h
    rw [List.append_assoc, List.singleton_append, splitlines_newline]

/-! ## The edit -/

/-- A body that can stand in front of the text behind it: its headings are deeper, and it closes the fences that it
opens. -/
structure Fits (W : WordClass) (level : ℕ) (after body : List Char) : Prop where
  deeper : ∀ h ∈ headings W none (splitlines body), level < h.1
  closed : after = [] ∨ fenceAfter W none (splitlines body) = none

/-- The sections of two texts are the same but for the body of one: the sections in it, and the bodies that contain
it. -/
def Local (W : WordClass) (text text' : List Char) (sec sec' : Section) : Prop :=
  ∃ before inside after before' inside' after',
    parseSections W text = before ++ sec :: (inside ++ after) ∧
    parseSections W text' = before' ++ sec' :: (inside' ++ after') ∧
    SameHeading sec sec' ∧
    List.Forall₂ (KeptBefore text text' sec) before before' ∧
    List.Forall₂ (KeptBehind text text') after after' ∧
    (∀ T ∈ inside, sec.level < T.level) ∧ (∀ T ∈ inside', sec.level < T.level) ∧
    ∀ T ∈ after.head?, T.level ≤ sec.level

theorem level_of_mem_layout {rest pairs : List (Found × List Char)}
    (h : sec ∈ layout text rest pairs) : ∃ q ∈ pairs, sec.level = q.1.level := by
  induction pairs with
  | nil => cases h
  | cons q pairs ih =>
    obtain rfl | h := List.mem_cons.1 h
    · exact ⟨q, List.mem_cons_self, rfl⟩
    · obtain ⟨q', hq', hlevel⟩ := ih h
      exact ⟨q', List.mem_cons_of_mem q hq', hlevel⟩

namespace Cut

variable (c : Cut W)

theorem sectionsInside_deeper : ∀ T ∈ c.sectionsInside, c.level < T.level := by
  intro T hT
  obtain ⟨q, hq, hlevel⟩ := level_of_mem_layout hT
  rw [hlevel]
  exact c.inside_deeper q.1 (List.of_mem_zip hq).1

theorem head_sectionsAfter : ∀ T ∈ c.sectionsAfter.head?, T.level ≤ c.level := by
  have hhead := c.head_behind
  intro T hT
  rw [sectionsAfter] at hT
  cases hbehind : c.behind with
  | nil =>
    rw [hbehind] at hT
    cases hT
  | cons f F =>
    rw [hbehind] at hT hhead
    cases hT
    exact hhead f rfl

variable {body : List Char}

theorem splitlines_in_front (h : body = [] ∨ body.getLast? = some '\n') :
    splitlines (splitlines body ++ c.after).flatten = splitlines body ++ c.after := by
  rw [List.flatten_append, flatten_splitlines, splitlines_append h, splitlines_after]

/-- The cut with another body. -/
def edit {body : List Char} (h : body = [] ∨ body.getLast? = some '\n') (hfits : Fits W c.level c.after.flatten body) :
    Cut W :=
  c.withBody (splitlines body) (c.splitlines_in_front h) hfits.deeper <| hfits.closed.imp_left fun hnil => by
    have hlines := c.splitlines_after
    rw [hnil] at hlines
    exact hlines.symm

theorem edit_text (h : body = [] ∨ body.getLast? = some '\n') (hfits : Fits W c.level c.after.flatten body) :
    (c.edit h hfits).text = c.before.flatten ++ c.line ++ body ++ c.after.flatten := by
  rw [text_eq]
  change c.before.flatten ++ c.line ++ (splitlines body).flatten ++ c.after.flatten = _
  rw [flatten_splitlines]

theorem edit_local (h : body = [] ∨ body.getLast? = some '\n') (hfits : Fits W c.level c.after.flatten body) :
    Local W c.text (c.edit h hfits).text c.sectionOwn (c.edit h hfits).sectionOwn :=
  ⟨_, _, _, _, _, _, c.parseSections_text, (c.edit h hfits).parseSections_text, ⟨rfl, rfl, rfl⟩,
    sectionsBefore_kept _ _ _, c.sectionsAfter_kept _ _ _, c.sectionsInside_deeper, (c.edit h hfits).sectionsInside_deeper,
    c.head_sectionsAfter⟩

theorem take_start : c.text.take c.start = c.before.flatten ++ c.line := by
  have hstart : (c.before.flatten ++ c.line).length = c.start := List.length_append
  rw [text_eq, List.append_assoc _ c.body.flatten, ← hstart, List.take_left]

theorem drop_stop : c.text.drop c.stop = c.after.flatten := by
  rw [text_eq, ← length_stop, List.drop_left]

end Cut

theorem Fits.padded {level : ℕ} {after body : List Char} (h : Fits W level after body) :
    Fits W level after (padded body after) := by
  obtain ⟨n, hn⟩ := padded_eq body after
  obtain ⟨hheadings, hfence⟩ := headings_append_newlines (W := W) body n
  rw [hn]
  exact ⟨by rw [hheadings]; exact h.deeper, by rw [hfence]; exact h.closed⟩

/-- **An edit of a body is local.** The cut at the section, and the cut of the text with the other body. -/
theorem setSectionBody_local (hsec : sec ∈ parseSections W text)
    (hlevel : 0 < sec.level) (hline : EndsWithNewline text sec) {body : List Char}
    (hfits : Fits W sec.level (text.drop sec.stop) body) :
    ∃ c : Cut W, c.text = text ∧ c.sectionOwn = sec ∧ ∃ hfits',
      (c.edit (padded_ends body c.after.flatten) hfits').text = setSectionBody text sec body := by
  obtain ⟨c, rfl, rfl⟩ := exists_cut hsec hlevel hline
  have hdrop : c.text.drop c.sectionOwn.stop = c.after.flatten := c.drop_stop
  rw [hdrop] at hfits
  have hpadded : Fits W c.level c.after.flatten (padded body c.after.flatten) := Fits.padded hfits
  refine ⟨c, rfl, rfl, hpadded, ?_⟩
  rw [Cut.edit_text _ _ hpadded, setSectionBody, hdrop]
  exact congrArg (· ++ _ ++ _) c.take_start.symm

end LlmGateway.MarkdownSections
