import LlmGateway.MarkdownSections.Edits

/-!
# How the sections of a text lie

A cut takes the lines of a text apart at a heading: the lines before it, its line, the lines of its body, and those
behind, the first of which is a heading of its level or above. `parseSections_cut` says what the sections of the text
are then. Those behind the body are the sections of the lines behind by themselves, moved by what stands before them
(`Cut.sectionsAfter`); those before are the headings before, each with its start and its end (`Cut.sectionsBefore`).
-/

namespace LlmGateway.MarkdownSections

open Text SessionStore

variable {W : WordClass}

/-! ## Headings of lines -/

/-- The fence behind some lines. -/
def fenceAfter (W : WordClass) (fence : Option (Char × ℕ)) (lines : List (List Char)) : Option (Char × ℕ) :=
  lines.foldl (nextFence W) fence

/-- A heading that stands further behind. -/
def shift (n o : ℕ) (f : Found) : Found := { f with line := f.line + n, offset := f.offset + o }

theorem findHeadings_append (fence : Option (Char × ℕ)) (n o : ℕ) (l l' : List (List Char)) :
    findHeadings W fence n o (l ++ l') =
      findHeadings W fence n o l ++ findHeadings W (fenceAfter W fence l) (n + l.length) (o + l.flatten.length) l' := by
  induction l generalizing fence n o with
  | nil => rfl
  | cons line l ih =>
    rw [List.cons_append, findHeadings, findHeadings, ih, List.append_assoc, List.length_cons, List.flatten_cons,
      List.length_append, Nat.add_assoc, Nat.add_comm 1, Nat.add_assoc]
    rfl

theorem findHeadings_shift (fence : Option (Char × ℕ)) (n o : ℕ) (l : List (List Char)) :
    findHeadings W fence n o l = (findHeadings W fence 0 0 l).map (shift n o) := by
  have hshift : ∀ n' o', findHeadings W fence (n' + n) (o' + o) l = (findHeadings W fence n' o' l).map (shift n o) := by
    induction l generalizing fence with
    | nil => exact fun _ _ => rfl
    | cons line l ih =>
      intro n' o'
      have hn : n' + n + 1 = n' + 1 + n := by omega
      have ho : o' + o + line.length = o' + line.length + o := by omega
      rw [findHeadings, findHeadings, List.map_append, hn, ho, ih]
      cases headingOf W fence line with
      | none => rfl
      | some h => rfl
  have h := hshift 0 0
  rwa [Nat.zero_add, Nat.zero_add] at h

variable {F : List Found} {f : Found} {fence : Option (Char × ℕ)} {m n : ℕ}

theorem exists_split_of_findHeadings {o : ℕ} {l : List (List Char)} {R : List Found}
    (h : findHeadings W fence n o l = F ++ f :: R) :
    ∃ l₁ line l₂, l = l₁ ++ line :: l₂ ∧ findHeadings W fence n o l₁ = F ∧
      headingOf W (fenceAfter W fence l₁) line = some (f.level, f.heading) ∧
      f = ⟨n + l₁.length + 1, o + l₁.flatten.length, f.level, f.heading⟩ := by
  induction l generalizing fence n o F with
  | nil =>
    rw [findHeadings] at h
    exact (List.cons_ne_nil f R (List.append_eq_nil_iff.1 h.symm).2).elim
  | cons line l ih =>
    rw [findHeadings] at h
    cases hline : headingOf W fence line with
    | none =>
      rw [hline] at h
      obtain ⟨l₁, line', l₂, rfl, hF, hheading, hf⟩ := ih h
      refine ⟨line :: l₁, line', l₂, rfl, ?_, hheading, ?_⟩
      · rw [findHeadings, hline]
        exact hF
      · rw [hf, List.length_cons, List.flatten_cons, List.length_append]
        congr 1 <;> omega
    | some g =>
      rw [hline] at h
      cases F with
      | nil =>
        obtain ⟨rfl, -⟩ := List.cons.inj h
        exact ⟨[], line, l, rfl, rfl, hline, rfl⟩
      | cons e F =>
        obtain ⟨he, h⟩ := List.cons.inj h
        obtain ⟨l₁, line', l₂, rfl, hF, hheading, hf⟩ := ih h
        refine ⟨line :: l₁, line', l₂, rfl, ?_, hheading, ?_⟩
        · rw [findHeadings, hline, hF, ← he]
          rfl
        · rw [hf, List.length_cons, List.flatten_cons, List.length_append]
          congr 1 <;> omega

theorem fence_of_headingOf {line : List Char} {h : ℕ × List Char}
    (hline : headingOf W fence line = some h) : fence = none ∧ nextFence W fence line = none := by
  unfold headingOf at hline
  split at hline
  · rename_i hnone
    rw [Bool.and_eq_true, Option.isNone_iff_eq_none, Option.isNone_iff_eq_none] at hnone
    exact hnone
  · cases hline

theorem head_of_headingOf {line : List Char} {h : ℕ × List Char}
    (hline : headingOf W fence line = some h) : line.head? = some '#' := by
  have hchomp : atxHeading (chomp line) = some h := by
    unfold headingOf at hline
    split at hline
    · exact hline
    · cases hline
  have hprefix : chomp line <+: line := by
    rw [chomp, ← List.reverse_suffix, List.reverse_reverse]
    exact List.dropWhile_suffix _
  obtain ⟨t, ht⟩ := hprefix
  cases hc : chomp line with
  | nil =>
    rw [hc] at hchomp
    cases hchomp
  | cons c s =>
    rw [hc] at hchomp ht
    rw [← ht]
    by_contra hne
    rw [atxHeading_of_ne fun heq => hne (congrArg some heq)] at hchomp
    cases hchomp

/-! ## Sections of headings -/

/-- Where the section of a heading ends, in front of others. -/
def stopAt (text : List Char) (level : ℕ) (rest : List (Found × List Char)) : ℕ :=
  (rest.find? fun g => decide (g.1.level ≤ level)).elim text.length fun g => g.1.offset

/-- The section of a heading with its path. -/
def spanned (q : Found × List Char) (start stop : ℕ) : Section :=
  ⟨q.1.heading, q.1.level, q.2, q.1.line, start, stop, stop - start⟩

/-- The section of a heading with its path, in front of others. -/
def sectionAt (text : List Char) (q : Found × List Char) (rest : List (Found × List Char)) : Section :=
  spanned q (lineEnd text q.1.offset) (stopAt text q.1.level rest)

/-- The sections of headings that stand in front of others. -/
def layout (text : List Char) (rest : List (Found × List Char)) : List (Found × List Char) → List Section
  | [] => []
  | q :: pairs => sectionAt text q (pairs ++ rest) :: layout text rest pairs

theorem layout_append (text : List Char) (rest pairs pairs' : List (Found × List Char)) :
    layout text rest (pairs ++ pairs') = layout text (pairs' ++ rest) pairs ++ layout text rest pairs' := by
  induction pairs with
  | nil => rfl
  | cons q pairs ih => rw [List.cons_append, layout, ih, layout, List.append_assoc, List.cons_append]

theorem charUpto_of_mem {o : ℕ} {l : List (List Char)}
    (hf : f ∈ findHeadings W fence n o l) : o + charUpto l (f.line - 1 - n) = f.offset ∧ n < f.line := by
  obtain ⟨F, R, hsplit⟩ := List.append_of_mem hf
  obtain ⟨l₁, line, l₂, rfl, -, -, heq⟩ := exists_split_of_findHeadings hsplit
  rw [heq]
  have hindex : n + l₁.length + 1 - 1 - n = l₁.length := by omega
  refine ⟨?_, by simp only; omega⟩
  simp only [hindex, charUpto, List.take_left, List.length_flatten]

theorem sectionsOf_eq_layout {text : List Char} {lines : List (List Char)} {pairs : List (Found × List Char)}
    (h : ∀ q ∈ pairs, charUpto lines (q.1.line - 1) = q.1.offset) : sectionsOf text lines pairs = layout text [] pairs := by
  induction pairs with
  | nil => rfl
  | cons q pairs ih =>
    rw [List.forall_mem_cons] at h
    rw [sectionsOf, layout, ih h.2, sectionAt, List.append_nil, stopAt]
    cases hfind : pairs.find? fun g => decide (g.1.level ≤ q.1.level) with
    | none => rfl
    | some g =>
      have hstop := h.2 g (List.mem_of_find?_eq_some hfind)
      simp only [hstop, Option.elim_some]
      rfl

/-! ## Paths -/

/-- The headings above what follows a heading. -/
def push (stack : List (ℕ × List Char)) (f : Found) : List (ℕ × List Char) :=
  (f.level, escaped f.heading) :: above stack f.level

def stackAfter (stack : List (ℕ × List Char)) (found : List Found) : List (ℕ × List Char) := found.foldl push stack

/-- The path that a stack spells. -/
def pathOf (stack : List (ℕ × List Char)) : List Char := ['/'].intercalate (stack.reverse.map Prod.snd)

theorem paths_append (stack : List (ℕ × List Char)) (F F' : List Found) :
    paths stack (F ++ F') = paths stack F ++ paths (stackAfter stack F) F' := by
  induction F generalizing stack with
  | nil => rfl
  | cons f F ih =>
    rw [List.cons_append, paths, paths, ih]
    rfl

theorem paths_shift (stack : List (ℕ × List Char)) (n o : ℕ) (F : List Found) :
    paths stack (F.map (shift n o)) = paths stack F := by
  induction F generalizing stack with
  | nil => rfl
  | cons f F ih =>
    rw [List.map_cons, paths, paths, ih]
    rfl

theorem above_above {stack : List (ℕ × List Char)} (h : n ≤ m) : above (above stack m) n = above stack n := by
  induction stack with
  | nil => rfl
  | cons e stack ih =>
    unfold above at ih ⊢
    rw [List.dropWhile_cons]
    split
    · rename_i he
      rw [ih, List.dropWhile_cons, if_pos (by rw [decide_eq_true_eq] at he ⊢; omega)]
    · rfl

theorem above_append (E : List (ℕ × List Char)) {stack : List (ℕ × List Char)} (h : ∀ e ∈ stack.head?, e.1 < m) :
    above (E ++ stack) m = E.dropWhile (fun e => decide (m ≤ e.1)) ++ stack := by
  rw [above, List.dropWhile_append]
  split
  · rename_i hempty
    rw [List.isEmpty_iff.1 hempty, List.nil_append]
    cases stack with
    | nil => rfl
    | cons e stack =>
      have := h e rfl
      rw [List.dropWhile_cons, if_neg (by rw [decide_eq_true_eq]; omega)]
  · rfl

theorem above_stackAfter {stack : List (ℕ × List Char)} (hF : ∀ g ∈ F, f.level < g.level)
    (hm : m ≤ f.level) : above (stackAfter (push stack f) F) m = above stack m := by
  have hkeep : ∀ E : List (ℕ × List Char), (∀ e ∈ E, f.level < e.1) →
      above (stackAfter (E ++ push stack f) F) m = above stack m := by
    induction F with
    | nil =>
      intro E hE
      have hall : ∀ e ∈ E, decide (m ≤ e.1) = true := fun e he => decide_eq_true (by have := hE e he; omega)
      rw [stackAfter, List.foldl_nil, above, List.dropWhile_append_of_pos hall, push, List.dropWhile_cons,
        if_pos (decide_eq_true hm)]
      exact above_above hm
    | cons g F ih =>
      intro E hE
      rw [List.forall_mem_cons] at hF
      have hpush : ∃ E', (∀ e ∈ E', f.level < e.1) ∧ push (E ++ push stack f) g = E' ++ push stack f := by
        have habove : above (E ++ push stack f) g.level =
            E.dropWhile (fun e => decide (g.level ≤ e.1)) ++ push stack f :=
          above_append E fun e he => by
            cases he
            exact hF.1
        refine ⟨(g.level, escaped g.heading) :: E.dropWhile fun e => decide (g.level ≤ e.1), ?_, ?_⟩
        · rw [List.forall_mem_cons]
          exact ⟨hF.1, fun e he => hE e ((List.dropWhile_sublist _).subset he)⟩
        · rw [push, habove, List.cons_append]
      obtain ⟨E', hE', heq⟩ := hpush
      rw [stackAfter, List.foldl_cons, heq]
      exact ih hF.2 E' hE'
  exact hkeep [] fun e he => by cases he

theorem paths_stackAfter {stack : List (ℕ × List Char)} {G : List Found}
    (hF : ∀ g ∈ F, f.level < g.level) (hG : ∀ g ∈ G.head?, g.level ≤ f.level) :
    paths (stackAfter (push stack f) F) G = paths stack G := by
  cases G with
  | nil => rfl
  | cons g G =>
    have habove : above (stackAfter (push stack f) F) g.level = above stack g.level :=
      above_stackAfter hF (hG g rfl)
    rw [paths, paths, habove]

/-! ## Ends of lines -/

theorem lineEnd_append (u t : List Char) (n : ℕ) : lineEnd (u ++ t) (u.length + n) = u.length + lineEnd t n := by
  have hlength : (u ++ t).length - (u.length + n) = t.length - n := by
    rw [List.length_append]
    omega
  rw [lineEnd, lineEnd, List.drop_append, List.drop_eq_nil_of_le (Nat.le_add_right ..), List.nil_append,
    Nat.add_sub_cancel_left, hlength, Nat.add_assoc]

theorem lineEnd_newline {u : List Char} (hn : n ≤ u.length) (t : List Char) :
    lineEnd (u ++ '\n' :: t) n = n + (((u.drop n).takeWhile fun c => c != '\n').length + 1) := by
  have htake : ∀ s : List Char, ((s ++ '\n' :: t).takeWhile fun c => c != '\n') = s.takeWhile fun c => c != '\n' := by
    intro s
    induction s with
    | nil => rfl
    | cons c s ih =>
      rw [List.cons_append, List.takeWhile_cons, List.takeWhile_cons, ih]
  have hle : ((u.drop n).takeWhile fun c => c != '\n').length ≤ u.length - n := by
    have := (List.takeWhile_sublist (l := u.drop n) fun c => c != '\n').length_le
    rwa [List.length_drop] at this
  rw [lineEnd, List.drop_append_of_le_length hn, htake, Nat.min_eq_left]
  rw [List.length_append, List.length_cons]
  omega

theorem lineEnd_line {u : List Char} (hu : '\n' ∉ u) (t : List Char) : lineEnd (u ++ '\n' :: t) 0 = u.length + 1 := by
  rw [lineEnd_newline (Nat.zero_le _), List.drop_zero, Nat.zero_add]
  congr 2
  exact List.takeWhile_eq_self_iff.2 fun c hc => bne_iff_ne.2 fun heq => hu (heq ▸ hc)

/-! ## Cuts -/

/-- The lines of a text, taken apart at a heading with its newline. -/
structure Cut (W : WordClass) where
  before : List (List Char)
  line : List Char
  body : List (List Char)
  after : List (List Char)
  level : ℕ
  heading : List Char
  isLines : splitlines (before ++ line :: (body ++ after)).flatten = before ++ line :: (body ++ after)
  newline : line.getLast? = some '\n'
  isHeading : headingOf W (fenceAfter W none before) line = some (level, heading)
  deeper : ∀ f ∈ headings W none body, level < f.1
  next : after = [] ∨ fenceAfter W none body = none ∧
    ∃ first rest h, after = first :: rest ∧ headingOf W none first = some h ∧ h.1 ≤ level

/-- A section that stands further behind. -/
def move (n o : ℕ) (sec : Section) : Section :=
  { sec with line := sec.line + n, start := sec.start + o, stop := sec.stop + o }

namespace Cut

variable (c : Cut W)

def lines : List (List Char) := c.before ++ c.line :: (c.body ++ c.after)

def text : List Char := c.lines.flatten

/-- The headings before. -/
def found : List Found := findHeadings W none 0 0 c.before

/-- The heading itself. -/
def own : Found := ⟨c.before.length + 1, c.before.flatten.length, c.level, c.heading⟩

def start : ℕ := c.before.flatten.length + c.line.length

def stop : ℕ := c.start + c.body.flatten.length

/-- The number of the lines up to the end of the body. -/
def count : ℕ := c.before.length + 1 + c.body.length

/-- The headings of the body. -/
def inside : List Found := findHeadings W none (c.before.length + 1) c.start c.body

/-- The headings behind, in the lines behind by themselves. -/
def behind : List Found := findHeadings W none 0 0 c.after

def stack : List (ℕ × List Char) := stackAfter [] c.found

/-- The headings before with their paths. -/
def pairsBefore : List (Found × List Char) := c.found.zip (paths [] c.found)

def pairOwn : Found × List Char := (c.own, pathOf (push c.stack c.own))

def pairsInside : List (Found × List Char) := c.inside.zip (paths (push c.stack c.own) c.inside)

def pairsBehind : List (Found × List Char) := (c.behind.map (shift c.count c.stop)).zip (paths c.stack c.behind)

/-- The section. -/
def sectionOwn : Section :=
  ⟨c.heading, c.level, pathOf (push c.stack c.own), c.before.length + 1, c.start, c.stop, c.stop - c.start⟩

/-- The preamble and the sections before. -/
def sectionsBefore : List Section :=
  let stop := (c.found.head?.getD c.own).offset
  ⟨[], 0, [], 1, 0, stop, stop⟩ :: layout c.text (c.pairOwn :: (c.pairsInside ++ c.pairsBehind)) c.pairsBefore

/-- The sections in the body. -/
def sectionsInside : List Section := layout c.text c.pairsBehind c.pairsInside

/-- The sections behind. -/
def sectionsAfter : List Section :=
  (layout c.after.flatten [] (c.behind.zip (paths c.stack c.behind))).map (move c.count c.stop)

theorem findHeadings_lines :
    findHeadings W none 0 0 c.lines = c.found ++ c.own :: (c.inside ++ c.behind.map (shift c.count c.stop)) := by
  obtain ⟨-, hnext⟩ := fence_of_headingOf c.isHeading
  have hbehind : findHeadings W (fenceAfter W none c.body) c.count c.stop c.after =
      c.behind.map (shift c.count c.stop) := by
    rw [findHeadings_shift, behind]
    obtain hnil | ⟨hfence, -⟩ := c.next
    · rw [hnil]
      rfl
    · rw [hfence]
  rw [lines, findHeadings_append, findHeadings, c.isHeading, hnext, findHeadings_append, Nat.zero_add, Nat.zero_add]
  exact congrArg (fun R => c.found ++ c.own :: (c.inside ++ R)) hbehind

theorem head_behind : ∀ f ∈ c.behind.head?, f.level ≤ c.level := by
  intro f hf
  obtain hnil | ⟨-, first, rest, h, heq, hheading, hle⟩ := c.next
  · rw [behind, hnil] at hf
    cases hf
  · rw [behind, heq, findHeadings, hheading] at hf
    cases hf
    exact hle

theorem inside_deeper : ∀ f ∈ c.inside, c.level < f.level := by
  intro f hf
  have hmem : (f.level, f.heading) ∈ (c.inside.map fun f => (f.level, f.heading)) := List.mem_map_of_mem hf
  rw [inside, map_findHeadings] at hmem
  exact c.deeper _ hmem

theorem zip_paths : (findHeadings W none 0 0 c.lines).zip (paths [] (findHeadings W none 0 0 c.lines)) =
    c.pairsBefore ++ c.pairOwn :: (c.pairsInside ++ c.pairsBehind) := by
  have hpaths : paths (stackAfter (push c.stack c.own) c.inside) c.behind = paths c.stack c.behind :=
    paths_stackAfter c.inside_deeper c.head_behind
  rw [findHeadings_lines, paths_append, paths, paths_append, paths_shift]
  rw [List.zip_append (length_paths _ _).symm, List.zip_cons_cons, List.zip_append (length_paths _ _).symm]
  exact congrArg (fun ps => c.pairsBefore ++ c.pairOwn :: (c.pairsInside ++ (c.behind.map (shift c.count c.stop)).zip ps))
    hpaths

theorem text_eq : c.text = (c.before.flatten ++ c.line ++ c.body.flatten) ++ c.after.flatten := by
  rw [text, lines, List.flatten_append, List.flatten_cons, List.flatten_append]
  simp only [List.append_assoc]

theorem length_stop : (c.before.flatten ++ c.line ++ c.body.flatten).length = c.stop := by
  rw [List.length_append, List.length_append]
  rfl

theorem exists_line : ∃ t, c.line = t ++ ['\n'] ∧ '\n' ∉ t := by
  obtain ⟨t, ht⟩ := List.getLast?_eq_some_iff.1 c.newline
  have hlines := c.isLines
  rw [ht] at hlines
  exact ⟨t, ht, newline_not_mem_of_line hlines⟩

theorem lineEnd_own : lineEnd c.text c.before.flatten.length = c.start := by
  obtain ⟨t, ht, hnot⟩ := c.exists_line
  have htext : c.text = c.before.flatten ++ (t ++ '\n' :: (c.body.flatten ++ c.after.flatten)) := by
    rw [text_eq, ht]
    simp
  have hend := lineEnd_append c.before.flatten (t ++ '\n' :: (c.body.flatten ++ c.after.flatten)) 0
  rw [Nat.add_zero, lineEnd_line hnot] at hend
  rw [htext, hend, start, ht, List.length_append, List.length_singleton]

theorem sectionAt_own : sectionAt c.text c.pairOwn (c.pairsInside ++ c.pairsBehind) = c.sectionOwn := by
  have hinside : c.pairsInside.find? (fun g => decide (g.1.level ≤ c.level)) = none := by
    rw [List.find?_eq_none]
    intro g hg
    have := c.inside_deeper g.1 (List.of_mem_zip hg).1
    rw [decide_eq_true_eq]
    omega
  have hstop : stopAt c.text c.level (c.pairsInside ++ c.pairsBehind) = c.stop := by
    rw [stopAt, List.find?_append, hinside, Option.none_or]
    obtain hnil | ⟨-, first, rest, h, heq, hheading, hle⟩ := c.next
    · have hbehind : c.pairsBehind = [] := by
        rw [pairsBehind, behind, hnil]
        rfl
      rw [hbehind, List.find?_nil, Option.elim_none, text_eq, hnil, List.flatten_nil, List.append_nil, length_stop]
    · have hbehind : c.behind = ⟨1, 0, h.1, h.2⟩ :: findHeadings W (nextFence W none first) 1 first.length rest := by
        rw [behind, heq, findHeadings, hheading, Nat.zero_add, Nat.zero_add]
        rfl
      have hpair : ∃ q qs, c.pairsBehind = q :: qs ∧ q.1.level = h.1 ∧ q.1.offset = c.stop := by
        rw [pairsBehind, hbehind, List.map_cons, paths, List.zip_cons_cons]
        exact ⟨_, _, rfl, rfl, Nat.zero_add _⟩
      obtain ⟨q, qs, hpairs, hlevel, hoffset⟩ := hpair
      rw [hpairs, List.find?_cons_of_pos (by rw [hlevel]; exact decide_eq_true hle)]
      exact hoffset
  have hstart : lineEnd c.text c.pairOwn.1.offset = c.start := c.lineEnd_own
  rw [sectionAt, hstart, show c.pairOwn.1.level = c.level from rfl, hstop]
  rfl

end Cut

theorem sectionAt_move (u t : List Char) (n : ℕ) (q : Found × List Char) (rest : List (Found × List Char)) :
    sectionAt (u ++ t) (shift n u.length q.1, q.2) (rest.map fun g => (shift n u.length g.1, g.2)) =
      move n u.length (sectionAt t q rest) := by
  have hstart : lineEnd (u ++ t) (q.1.offset + u.length) = lineEnd t q.1.offset + u.length := by
    rw [Nat.add_comm, lineEnd_append, Nat.add_comm]
  have hstop : stopAt (u ++ t) q.1.level (rest.map fun g => (shift n u.length g.1, g.2)) =
      stopAt t q.1.level rest + u.length := by
    rw [stopAt, stopAt, List.find?_map]
    change (Option.map _ (rest.find? fun g => decide (g.1.level ≤ q.1.level))).elim _ _ = _
    cases rest.find? fun g => decide (g.1.level ≤ q.1.level) with
    | none => rw [Option.map_none, Option.elim_none, Option.elim_none, List.length_append, Nat.add_comm]
    | some g => rfl
  change spanned (shift n u.length q.1, q.2) (lineEnd (u ++ t) (q.1.offset + u.length)) (stopAt (u ++ t) q.1.level _) = _
  rw [hstart, hstop, spanned, Nat.add_sub_add_right]
  rfl

theorem layout_move (u t : List Char) (n : ℕ) (pairs : List (Found × List Char)) :
    layout (u ++ t) [] (pairs.map fun g => (shift n u.length g.1, g.2)) = (layout t [] pairs).map (move n u.length) := by
  induction pairs with
  | nil => rfl
  | cons q pairs ih =>
    rw [List.map_cons, layout, layout, List.map_cons, ih, List.append_nil, List.append_nil, sectionAt_move]

namespace Cut

variable (c : Cut W)

theorem layout_behind : layout c.text [] c.pairsBehind = c.sectionsAfter := by
  have hpairs : c.pairsBehind = (c.behind.zip (paths c.stack c.behind)).map fun g => (shift c.count c.stop g.1, g.2) := by
    rw [pairsBehind, List.zip_map_left]
    rfl
  have hmove := layout_move (c.before.flatten ++ c.line ++ c.body.flatten) c.after.flatten c.count
    (c.behind.zip (paths c.stack c.behind))
  rw [length_stop, ← text_eq] at hmove
  rw [hpairs]
  exact hmove

/-- **The sections of a text that is cut at a heading.** -/
theorem parseSections_text :
    parseSections W c.text = c.sectionsBefore ++ c.sectionOwn :: (c.sectionsInside ++ c.sectionsAfter) := by
  have hlines : splitlines c.text = c.lines := c.isLines
  have hoffset : ∀ f ∈ findHeadings W none 0 0 c.lines, charUpto c.lines (f.line - 1) = f.offset := by
    intro f hf
    have h := (charUpto_of_mem hf).1
    rwa [Nat.zero_add, Nat.sub_zero] at h
  have hpairs : ∀ q ∈ c.pairsBefore ++ c.pairOwn :: (c.pairsInside ++ c.pairsBehind),
      charUpto c.lines (q.1.line - 1) = q.1.offset := by
    rw [← zip_paths]
    exact fun q hq => hoffset q.1 (List.of_mem_zip hq).1
  have hsections : sectionsOf c.text c.lines (c.pairsBefore ++ c.pairOwn :: (c.pairsInside ++ c.pairsBehind)) =
      layout c.text (c.pairOwn :: (c.pairsInside ++ c.pairsBehind)) c.pairsBefore ++
        c.sectionOwn :: (c.sectionsInside ++ c.sectionsAfter) := by
    rw [sectionsOf_eq_layout hpairs, layout_append, layout, layout_append, layout_behind, List.append_nil,
      List.append_nil, List.append_nil, sectionAt_own]
    rfl
  rw [parseSections, hlines]
  simp only [zip_paths, hsections]
  rw [sectionsBefore, List.cons_append]
  refine congrArg (fun stop => Section.mk [] 0 [] 1 0 stop stop :: _) ?_
  rw [findHeadings_lines] at hoffset ⊢
  cases hfound : c.found with
  | nil =>
    rw [hfound] at hoffset
    exact hoffset c.own (by simp)
  | cons f F =>
    rw [hfound] at hoffset
    exact hoffset f (by simp)

end Cut

end LlmGateway.MarkdownSections
