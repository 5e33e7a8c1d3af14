import LlmGateway.MarkdownSections.Locality

/-!
# What is read back

A path that names the edited section by its full path names it in the edited text, too, and so does every path when
the headings of the new body are those of the old one (`resolveHeading_edit`). `section_edits` is about the three edits
of a body.
-/

namespace LlmGateway.MarkdownSections

open Text SessionStore

variable {W : WordClass}

/-! ## Names -/

/-- What a path can name a section by. -/
def name (sec : Section) : List Char × ℕ × List Char := (sec.heading, sec.level, sec.path)

variable {sec : Section} {l l' sections : List Section} {line path text : List Char}
  {fence : Option (Char × ℕ)}

theorem firstMatch_mem {l : List (SectionError × List Section)} (h : firstMatch l = .ok (some sec)) :
    ∃ e, (e, [sec]) ∈ l := by
  induction l with
  | nil => cases h
  | cons m l ih =>
    obtain ⟨e, ms⟩ := m
    match ms with
    | [] =>
      obtain ⟨e', hmem⟩ := ih h
      exact ⟨e', List.mem_cons_of_mem _ hmem⟩
    | [t] =>
      cases h
      exact ⟨e, List.mem_cons_self⟩

theorem map_name_filter {p : Section → Bool} {q : List Char × ℕ × List Char → Bool} (hp : ∀ sec, p sec = q (name sec))
    (h : l.map name = l'.map name) : (l.filter p).map name = (l'.filter p).map name := by
  have hfilter : ∀ l : List Section, (l.filter p).map name = (l.map name).filter q := by
    intro l
    rw [List.filter_map]
    congr 2
    exact funext hp
  rw [hfilter, hfilter, h]

/-- The strategies of a path, over some sections. -/
def strategies (sections : List Section) (path : List Char) : List (SectionError × List Section) :=
  [(.multipleMatches, exactMatches sections (strip path)), (.ambiguous, displayMatches sections (unescape (strip path))),
    (.ambiguous, headingMatches sections (unescape (strip path))), (.ambiguous, suffixMatches sections (strip path))]

theorem map_name_strategies (h : l.map name = l'.map name) (path : List Char) :
    List.Forall₂ (fun m m' => m.1 = m'.1 ∧ m.2.map name = m'.2.map name) (strategies l path) (strategies l' path) := by
  have hany : ∀ lookup : List Char, l.any (fun s => decide (0 < s.level) && s.heading == lookup) =
      l'.any fun s => decide (0 < s.level) && s.heading == lookup := by
    intro lookup
    have hmap : ∀ l : List Section, l.any (fun s => decide (0 < s.level) && s.heading == lookup) =
        (l.map name).any fun n => decide (0 < n.2.1) && n.1 == lookup := fun l => by
      rw [List.any_map]
      rfl
    rw [hmap, hmap, h]
  refine .cons ⟨rfl, map_name_filter (q := fun n => n.2.2 == _) (fun _ => rfl) h⟩ (.cons ⟨rfl, ?_⟩
    (.cons ⟨rfl, map_name_filter (q := fun n => n.1 == _) (fun _ => rfl) h⟩ (.cons ⟨rfl, ?_⟩ .nil)))
  · simp only [displayMatches, hany]
    split
    · exact map_name_filter (q := fun n => unescape n.2.2 == _ || endsWithLeaf (unescape n.2.2) _) (fun _ => rfl) h
    · rfl
  · simp only [suffixMatches]
    split
    · rfl
    · exact map_name_filter (q := fun n => endsWithLeaf n.2.2 _ || n.2.2 == _) (fun _ => rfl) h

theorem firstMatch_of_names {l l' : List (SectionError × List Section)}
    (h : List.Forall₂ (fun m m' => m.1 = m'.1 ∧ m.2.map name = m'.2.map name) l l')
    (hsec : firstMatch l = .ok (some sec)) : ∃ sec', firstMatch l' = .ok (some sec') ∧ name sec' = name sec := by
  induction h with
  | nil => cases hsec
  | @cons m m' l l' hm _ ih =>
    obtain ⟨e, ms⟩ := m
    obtain ⟨e', ms'⟩ := m'
    obtain ⟨rfl, hnames⟩ : e = e' ∧ ms.map name = ms'.map name := hm
    have hlength := congrArg List.length hnames
    rw [List.length_map, List.length_map] at hlength
    match ms, ms', hlength with
    | [], [], _ => exact ih hsec
    | [t], [t'], _ =>
      cases hsec
      exact ⟨t', rfl, (List.cons.inj hnames).1.symm⟩

theorem eq_of_name (h : resolveHeading sections path = .ok (some sec)) :
    sec ∈ sections ∧ ∀ sec' ∈ sections, name sec' = name sec → sec' = sec := by
  have honly : ∀ p : Section → Bool, (∀ a b, name a = name b → p a = p b) → sections.filter p = [sec] →
      sec ∈ sections ∧ ∀ sec' ∈ sections, name sec' = name sec → sec' = sec := by
    intro p hp hfilter
    have hmem : sec ∈ sections.filter p := by rw [hfilter]; exact List.mem_singleton_self sec
    rw [List.mem_filter] at hmem
    refine ⟨hmem.1, fun sec' hsec' hname => ?_⟩
    have hmem' : sec' ∈ sections.filter p := List.mem_filter.2 ⟨hsec', by rw [hp sec' sec hname]; exact hmem.2⟩
    rw [hfilter] at hmem'
    exact List.mem_singleton.1 hmem'
  have hfields : ∀ {a b : Section}, name a = name b → a.heading = b.heading ∧ a.path = b.path := fun hname =>
    ⟨congrArg Prod.fst hname, congrArg (fun n => n.2.2) hname⟩
  obtain ⟨e, hmem⟩ := firstMatch_mem h
  simp only [List.mem_cons, List.not_mem_nil, or_false, Prod.mk.injEq] at hmem
  obtain ⟨-, hmem⟩ | ⟨-, hmem⟩ | ⟨-, hmem⟩ | ⟨-, hmem⟩ := hmem
  · exact honly _ (fun a b hname => by rw [(hfields hname).2]) hmem.symm
  · rw [displayMatches] at hmem
    split at hmem
    · exact honly _ (fun a b hname => by rw [(hfields hname).2]) hmem.symm
    · cases hmem
  · exact honly _ (fun a b hname => by rw [(hfields hname).1]) hmem.symm
  · rw [suffixMatches] at hmem
    split at hmem
    · cases hmem
    · exact honly _ (fun a b hname => by rw [(hfields hname).2]) hmem.symm

theorem resolveHeading_of_names {sections' : List Section} (hnames : sections.map name = sections'.map name)
    {sec' : Section} (h : resolveHeading sections path = .ok (some sec)) (hsec' : sec' ∈ sections')
    (hname : name sec' = name sec) : resolveHeading sections' path = .ok (some sec') := by
  obtain ⟨sec'', hresolve, hname''⟩ := firstMatch_of_names (map_name_strategies hnames path) h
  have hunique := (eq_of_name hresolve).2 sec' hsec' (hname.trans hname''.symm)
  rw [hunique]
  exact hresolve

/-! ## The names of an edited text -/

/-- The names of headings. -/
def namesOf (stack : List (ℕ × List Char)) : List (ℕ × List Char) → List (List Char × ℕ × List Char)
  | [] => []
  | h :: hs =>
    let stack := (h.1, escaped h.2) :: above stack h.1
    (h.2, h.1, pathOf stack) :: namesOf stack hs

theorem map_name_layout (text : List Char) (rest : List (Found × List Char)) (stack : List (ℕ × List Char))
    (F : List Found) : (layout text rest (F.zip (paths stack F))).map name =
      namesOf stack (F.map fun f => (f.level, f.heading)) := by
  induction F generalizing stack with
  | nil => rfl
  | cons f F ih =>
    rw [paths, List.zip_cons_cons, layout, List.map_cons, ih]
    rfl

theorem intercalate_append {a b : List (List Char)} (ha : a ≠ []) (hb : b ≠ []) :
    ['/'].intercalate (a ++ b) = ['/'].intercalate a ++ '/' :: ['/'].intercalate b := by
  induction a with
  | nil => exact (ha rfl).elim
  | cons x a ih =>
    by_cases hnil : a = []
    · rw [hnil, List.singleton_append, List.intercalate_cons_of_ne_nil hb, List.intercalate_singleton]
      simp
    · rw [List.cons_append, List.intercalate_cons_of_ne_nil (by simp [hnil]), ih hnil,
        List.intercalate_cons_of_ne_nil hnil]
      simp

theorem pathOf_append {E stack : List (ℕ × List Char)} (hE : E ≠ []) (hstack : stack ≠ []) :
    ∃ s, pathOf (E ++ stack) = pathOf stack ++ '/' :: s := by
  refine ⟨['/'].intercalate (E.reverse.map Prod.snd), ?_⟩
  rw [pathOf, List.reverse_append, List.map_append, intercalate_append (by simpa using hstack) (by simpa using hE)]
  rfl

theorem namesOf_under {m : ℕ} {e : List Char} {stack : List (ℕ × List Char)} {hs : List (ℕ × List Char)}
    (hdeeper : ∀ h ∈ hs, m < h.1) (E : List (ℕ × List Char)) :
    ∀ n ∈ namesOf (E ++ (m, e) :: stack) hs, ∃ s, n.2.2 = pathOf ((m, e) :: stack) ++ '/' :: s := by
  induction hs generalizing E with
  | nil => exact fun n hn => by cases hn
  | cons h hs ih =>
    rw [List.forall_mem_cons] at hdeeper
    have habove : (h.1, escaped h.2) :: above (E ++ (m, e) :: stack) h.1 =
        ((h.1, escaped h.2) :: E.dropWhile fun d => decide (h.1 ≤ d.1)) ++ (m, e) :: stack := by
      rw [above_append E fun d hd => by cases hd; exact hdeeper.1, List.cons_append]
    rw [namesOf]
    simp only [habove, List.forall_mem_cons]
    exact ⟨pathOf_append (List.cons_ne_nil _ _) (List.cons_ne_nil _ _), ih hdeeper.2 _⟩

theorem map_name_of_kept {R : Section → Section → Prop} (hR : ∀ T T', R T T' → SameHeading T T')
    (h : List.Forall₂ R l l') : l.map name = l'.map name := by
  induction h with
  | nil => rfl
  | cons hT _ ih =>
    obtain ⟨hheading, hlevel, hpath⟩ := hR _ _ hT
    rw [List.map_cons, List.map_cons, ih, name, name, hheading, hlevel, hpath]

namespace Cut

variable (c : Cut W)

theorem map_name_inside : c.sectionsInside.map name = namesOf (push c.stack c.own) (headings W none c.body) := by
  rw [sectionsInside, pairsInside, map_name_layout, inside, map_findHeadings]

theorem path_of_mem_inside {T : Section} (hT : T ∈ c.sectionsInside) : ∃ s, T.path = c.sectionOwn.path ++ '/' :: s := by
  have hname : name T ∈ c.sectionsInside.map name := List.mem_map_of_mem hT
  rw [map_name_inside] at hname
  exact namesOf_under (m := c.level) (e := escaped c.heading) c.deeper [] _ hname

variable {body : List Char} (hends : body = [] ∨ body.getLast? = some '\n') (hfits : Fits W c.level c.after.flatten body)
  {path : List Char}

/-- The sections outside of the edited one keep their names. -/
theorem map_name_outside_edit : c.sectionsBefore.map name = (c.edit hends hfits).sectionsBefore.map name ∧
    c.sectionsAfter.map name = (c.edit hends hfits).sectionsAfter.map name :=
  ⟨map_name_of_kept (fun _ _ hT => hT.1) (sectionsBefore_kept _ _ _),
    map_name_of_kept (fun _ _ hT => hT.1) (c.sectionsAfter_kept _ _ _)⟩

theorem resolveHeading_edit_of_headings (hheadings : headings W none (splitlines body) = headings W none c.body)
    (h : resolveHeading (parseSections W c.text) path = .ok (some c.sectionOwn)) :
    resolveHeading (parseSections W (c.edit hends hfits).text) path = .ok (some (c.edit hends hfits).sectionOwn) := by
  obtain ⟨hbefore, hafter⟩ := c.map_name_outside_edit hends hfits
  have hinside : c.sectionsInside.map name = (c.edit hends hfits).sectionsInside.map name := by
    rw [map_name_inside, map_name_inside, ← hheadings]
    rfl
  refine resolveHeading_of_names ?_ h ?_ rfl
  · rw [c.parseSections_text, (c.edit hends hfits).parseSections_text]
    simp only [List.map_append, List.map_cons, hbefore, hafter, hinside]
    rfl
  · rw [(c.edit hends hfits).parseSections_text]
    exact List.mem_append_right _ List.mem_cons_self

end Cut

theorem exactMatches_of_path (h : resolveHeading sections path = .ok (some sec)) (hpath : strip path = sec.path) :
    exactMatches sections (strip path) = [sec] := by
  have hmem : sec ∈ exactMatches sections (strip path) :=
    List.mem_filter.2 ⟨(eq_of_name h).1, by rw [hpath]; exact beq_self_eq_true _⟩
  rw [resolveHeading] at h
  match hexact : exactMatches sections (strip path) with
  | [] =>
    rw [hexact] at hmem
    cases hmem
  | [t] =>
    rw [hexact] at hmem
    rw [List.mem_singleton.1 hmem]
  | t :: u :: ts =>
    rw [hexact] at h
    cases h

namespace Cut

variable (c : Cut W) {body : List Char} (hends : body = [] ∨ body.getLast? = some '\n')
  (hfits : Fits W c.level c.after.flatten body) {path : List Char}

theorem resolveHeading_edit_of_path (hpath : strip path = c.sectionOwn.path)
    (h : resolveHeading (parseSections W c.text) path = .ok (some c.sectionOwn)) :
    resolveHeading (parseSections W (c.edit hends hfits).text) path = .ok (some (c.edit hends hfits).sectionOwn) := by
  obtain ⟨hbefore, hafter⟩ := c.map_name_outside_edit hends hfits
  have hmatches : ∀ {l l' : List Section}, l.map name = l'.map name → exactMatches l (strip path) = [] →
      exactMatches l' (strip path) = [] := by
    intro l l' hnames hnil
    have hmap := map_name_filter (p := fun s => s.path == strip path) (q := fun n => n.2.2 == strip path)
      (fun _ => rfl) hnames
    rw [show l.filter (fun s => s.path == strip path) = [] from hnil, List.map_nil, eq_comm, List.map_eq_nil_iff] at hmap
    exact hmap
  have hown : ∀ (sec : Section) (l : List Section), sec.path = c.sectionOwn.path →
      (sec :: l).filter (fun s => s.path == strip path) = sec :: l.filter fun s => s.path == strip path := by
    intro sec l hsec
    rw [List.filter_cons, if_pos (by rw [hsec, hpath]; exact beq_self_eq_true _)]
  have hold := exactMatches_of_path h hpath
  rw [c.parseSections_text, exactMatches, List.filter_append, hown _ _ rfl, List.filter_append] at hold
  have hlength := congrArg List.length hold
  simp only [List.length_append, List.length_cons, List.length_nil] at hlength
  have hbefore' := hmatches hbefore (List.length_eq_zero_iff.1 (by rw [exactMatches]; omega))
  have hafter' := hmatches hafter (List.length_eq_zero_iff.1 (by rw [exactMatches]; omega))
  have hinside' : exactMatches (c.edit hends hfits).sectionsInside (strip path) = [] := by
    refine List.filter_eq_nil_iff.2 fun T hT heq => ?_
    obtain ⟨s, hs⟩ := (c.edit hends hfits).path_of_mem_inside hT
    rw [eq_of_beq heq, hpath] at hs
    have hlength := congrArg List.length hs
    rw [List.length_append, List.length_cons] at hlength
    have hsame : (c.edit hends hfits).sectionOwn.path.length = c.sectionOwn.path.length := rfl
    omega
  have hnew : exactMatches (parseSections W (c.edit hends hfits).text) (strip path) =
      [(c.edit hends hfits).sectionOwn] := by
    rw [(c.edit hends hfits).parseSections_text, exactMatches, List.filter_append,
      hown (c.edit hends hfits).sectionOwn _ rfl, List.filter_append]
    exact congrArg₂ (fun a b => a ++ (c.edit hends hfits).sectionOwn :: b) hbefore'
      (congrArg₂ (· ++ ·) hinside' hafter')
  rw [resolveHeading, hnew]
  rfl

end Cut

/-! ## Content without fence lines -/

/-- Content without fence lines and without headings of the level or above. -/
structure Plain (W : WordClass) (level : ℕ) (content : List Char) : Prop where
  noFence : ∀ line ∈ splitlines content, nextFence W none line = none
  deeper : ∀ h ∈ headings W none (splitlines content), level < h.1

theorem nextFence_of_noFence (hline : nextFence W none line = none)
    (hopen : CanBeOpen fence) : nextFence W fence line = fence := by
  cases fence with
  | none => exact hline
  | some p =>
    obtain ⟨hc, hlen⟩ := hopen p rfl
    have hclosing : isClosingFenceLine line p.1 p.2 = false := by
      rw [isClosingFenceLine, beq_eq_false_iff_ne]
      intro hrow
      have hpos : 0 < p.2 := Nat.lt_of_lt_of_le (by decide) hlen
      have hopens : parseFenceOpen W (List.replicate p.2 p.1 ++ []) = some (p.1, p.2, []) :=
        parseFenceOpen_replicate hc hpos rfl rfl (List.forall_mem_nil _)
      have hspace : Json.isSpace p.1 = false := by
        obtain hc | hc := hc <;> rw [hc] <;> decide
      have hsame : parseFenceOpen W line = parseFenceOpen W (List.replicate p.2 p.1 ++ []) := by
        rw [List.append_nil, parseFenceOpen, parseFenceOpen, hrow, stripped_replicate hspace]
      rw [nextFence, hsame, hopens, Option.filter_some, if_pos (decide_eq_true hlen)] at hline
      cases hline
    rw [nextFence]
    simp only [hclosing, Bool.false_eq_true, if_false]

theorem fenceAfter_of_noFence {lines : List (List Char)} (h : ∀ line ∈ lines, nextFence W none line = none)
    (hopen : CanBeOpen fence) : fenceAfter W fence lines = fence := by
  induction lines with
  | nil => rfl
  | cons line lines ih =>
    rw [List.forall_mem_cons] at h
    rw [fenceAfter, List.foldl_cons, nextFence_of_noFence h.1 hopen]
    exact ih h.2

theorem headings_of_noFence {lines : List (List Char)} (h : ∀ line ∈ lines, nextFence W none line = none)
    (hopen : CanBeOpen fence) (hne : fence ≠ none) : headings W fence lines = [] := by
  induction lines with
  | nil => rfl
  | cons line lines ih =>
    rw [List.forall_mem_cons] at h
    have hheading : headingOf W fence line = none := by
      rw [headingOf, if_neg]
      rw [Bool.and_eq_true, Option.isNone_iff_eq_none]
      exact fun hnone => hne hnone.1
    rw [headings, hheading, nextFence_of_noFence h.1 hopen, ih h.2]
    rfl

theorem Plain.fits {level : ℕ} {content : List Char} (h : Plain W level content) (after : List Char) :
    Fits W level after content :=
  ⟨h.deeper, .inr (fenceAfter_of_noFence h.noFence canBeOpen_none)⟩

theorem Fits.append {level : ℕ} {after body content : List Char} (hbody : Fits W level after body)
    (hcontent : Plain W level content) : Fits W level after (terminated body ++ content) := by
  obtain ⟨n, hn⟩ := terminated_eq body
  obtain ⟨hheadings, hfence⟩ := headings_append_newlines (W := W) body n
  rw [← hn] at hheadings hfence
  have hlines := splitlines_append (terminated_ends body) content
  have hopen := canBeOpen_none.after (W := W) (splitlines body)
  have hafter := fenceAfter_of_noFence hcontent.noFence hopen
  constructor
  · rw [hlines, headings_append, List.forall_mem_append, hheadings]
    refine ⟨hbody.deeper, ?_⟩
    change ∀ h ∈ headings W (fenceAfter W none (splitlines (terminated body))) (splitlines content), level < h.1
    rw [hfence]
    by_cases hnone : fenceAfter W none (splitlines body) = none
    · rw [hnone]
      exact hcontent.deeper
    · rw [headings_of_noFence hcontent.noFence hopen hnone]
      exact fun h hh => by cases hh
  · refine hbody.closed.imp_right fun hclosed => ?_
    rw [hlines, fenceAfter, List.foldl_append]
    change fenceAfter W (fenceAfter W none (splitlines (terminated body))) (splitlines content) = none
    rw [hfence, hafter, hclosed]

/-! ## The heading in front of the content -/

theorem getLast?_of_mem_line {s : List Char} {l l' : List (List Char)} (h : splitlines s = l ++ line :: l')
    (hmem : '\n' ∈ line) : line.getLast? = some '\n' := by
  obtain ⟨a, b, rfl⟩ := List.append_of_mem hmem
  have hsuffix := splitlines_flatten_suffix h
  rw [List.flatten_cons, List.append_assoc, List.cons_append, splitlines_newline] at hsuffix
  have hfirst := (splitlines_parts (a ++ ['\n'])).1
  cases hlines : splitlines (a ++ ['\n']) with
  | nil => exact (splitlines_ne_nil (by simp) hlines).elim
  | cons first rest =>
    rw [hlines] at hsuffix hfirst
    have hlength := (hfirst first rfl).length_le
    obtain ⟨rfl, -⟩ := List.cons.inj hsuffix
    cases b with
    | nil => exact List.getLast?_concat
    | cons d b =>
      simp only [List.length_append, List.length_cons, List.length_nil] at hlength
      omega

/-- What `_strip_leading_heading` takes away: nothing, or a heading of the level and text with the blanks before it. -/
def StripsHeading (content : List Char) (level : ℕ) (heading : List Char) (stripped : List Char × Bool) : Prop :=
  stripped = (content, false) ∨ stripped.2 = true ∧ ∃ front line rest, content = front ++ line ++ rest ∧
    strip front = [] ∧ atxHeading (chomp line) = some (level, heading) ∧
      (line.getLast? = some '\n' ∨ rest = [] → stripped.1 = rest)

theorem drop_lineEnd {s : List Char} {l l' : List (List Char)} (h : splitlines s = l ++ line :: l')
    (hend : line.getLast? = some '\n' ∨ l'.flatten = []) : s.drop (lineEnd s l.flatten.length) = l'.flatten := by
  have htext : s = l.flatten ++ (line ++ l'.flatten) := by
    rw [← flatten_splitlines s, h, List.flatten_append, List.flatten_cons]
  have hlineEnd : lineEnd (line ++ l'.flatten) 0 = line.length := by
    by_cases hmem : '\n' ∈ line
    · obtain ⟨t, rfl⟩ := List.getLast?_eq_some_iff.1 (getLast?_of_mem_line h hmem)
      rw [List.append_assoc, List.singleton_append, lineEnd_line (newline_not_mem_of_line h), List.length_append,
        List.length_singleton]
    · have hrest : l'.flatten = [] := hend.resolve_left fun hlast =>
        hmem (List.mem_of_getLast? hlast)
      have htake : (line.takeWhile fun c => c != '\n') = line :=
        List.takeWhile_eq_self_iff.2 fun c hc => bne_iff_ne.2 fun heq => hmem (heq ▸ hc)
      rw [hrest, List.append_nil, lineEnd, List.drop_zero, htake]
      omega
  have hlineEnd' := lineEnd_append l.flatten (line ++ l'.flatten) 0
  rw [hlineEnd, Nat.add_zero, ← htext] at hlineEnd'
  conv_lhs => rw [hlineEnd', htext]
  rw [List.drop_length_add_append, List.drop_left]

theorem level_pos_of_headingOf {h : ℕ × List Char}
    (hline : headingOf W fence line = some h) : atxHeading (chomp line) = some h ∧ 0 < h.1 := by
  have hatx : atxHeading (chomp line) = some h := by
    unfold headingOf at hline
    split at hline
    · exact hline
    · cases hline
  refine ⟨hatx, ?_⟩
  unfold atxHeading at hatx
  simp only at hatx
  split_ifs at hatx
  · cases hatx
    simp only
    omega
  · cases hatx
    simp only
    omega

theorem filter_parseSections (W : WordClass) (text : List Char) :
    match findHeadings W none 0 0 (splitlines text) with
    | [] => (parseSections W text).filter (fun s => decide (0 < s.level)) = []
    | f :: _ => ∃ first rest, (parseSections W text).filter (fun s => decide (0 < s.level)) = first :: rest ∧
        first.heading = f.heading ∧ first.level = f.level ∧ first.line = f.line ∧ first.start = lineEnd text f.offset := by
  cases hfound : findHeadings W none 0 0 (splitlines text) with
  | nil =>
    simp only [parseSections, hfound]
    rfl
  | cons f R =>
    obtain ⟨l₁, line, l₂, -, -, hheading, -⟩ := exists_split_of_findHeadings (F := []) hfound
    have hpos := (level_pos_of_headingOf hheading).2
    simp only [parseSections, hfound, paths, List.zip_cons_cons, sectionsOf]
    rw [List.filter_cons_of_neg (by simp), List.filter_cons_of_pos (by simpa using hpos)]
    exact ⟨_, _, rfl, rfl, rfl, rfl, rfl⟩

/-- **What is taken away in front of the content** is a redundant heading. -/
theorem stripLeadingHeading_spec (W : WordClass) (content : List Char) (level : ℕ) (heading : List Char) :
    StripsHeading content level heading (stripLeadingHeading W content level heading) := by
  have hfilter := filter_parseSections W content
  cases hfound : findHeadings W none 0 0 (splitlines content) with
  | nil =>
    rw [hfound] at hfilter
    rw [stripLeadingHeading, hfilter]
    exact .inl rfl
  | cons f R =>
    rw [hfound] at hfilter
    obtain ⟨first, rest, hfirst, hfheading, hflevel, hfline, hfstart⟩ := hfilter
    obtain ⟨l₁, line, l₂, hlines, -, hheading, hf⟩ := exists_split_of_findHeadings (F := []) hfound
    have hoffset : f.offset = l₁.flatten.length := by
      rw [hf]
      exact Nat.zero_add _
    have hupto : charUpto (splitlines content) (first.line - 1) = f.offset := by
      have h := (charUpto_of_mem (l := splitlines content) (f := f) (by rw [hfound]; exact List.mem_cons_self)).1
      rwa [Nat.zero_add, Nat.sub_zero, ← hfline] at h
    have hcontent : content = l₁.flatten ++ line ++ l₂.flatten := by
      rw [← flatten_splitlines content, hlines, List.flatten_append, List.flatten_cons, List.append_assoc]
    have hfront : content.take f.offset = l₁.flatten := by
      conv_lhs => rw [hcontent, List.append_assoc, hoffset]
      exact List.take_left
    rw [stripLeadingHeading, hfirst]
    simp only [hupto, hfront]
    by_cases hblank : strip l₁.flatten = []
    · rw [if_neg (not_not.2 hblank)]
      by_cases hsame : first.level = level ∧ first.heading = heading
      · rw [if_pos hsame]
        refine .inr ⟨rfl, l₁.flatten, line, l₂.flatten, hcontent, hblank, ?_, fun hend => ?_⟩
        · rw [(level_pos_of_headingOf hheading).1, ← hfheading, ← hflevel, hsame.1, hsame.2]
        · rw [hfstart, hoffset]
          exact drop_lineEnd hlines hend
      · rw [if_neg hsame]
        exact .inl rfl
    · rw [if_pos hblank]
      exact .inl rfl

/-! ## The edits -/

/-- What an edit with another body leaves: it is local, the section has the body with newlines behind it, and this is
what is read at the same path, when the path still names the section. -/
def Edited (W : WordClass) (text text' path : List Char) (sec : Section) (body : List Char) : Prop :=
  ∃ sec', Local W text text' sec sec' ∧ (∃ n, bodyOf text' sec' = body ++ List.replicate n '\n') ∧
    (strip path = sec.path ∨ headings W none (splitlines body) = headings W none (splitlines (bodyOf text sec)) ∨
      resolveSection W text' path = .ok sec' → readSection W text' path = .ok (bodyOf text' sec'))

theorem resolveHeading_of_resolveSection (hsec : resolveSection W text path = .ok sec) (hlevel : 0 < sec.level)
    (hxml : resolveXmlSection W text path = .ok none) :
    path ≠ [] ∧ resolveHeading (parseSections W text) path = .ok (some sec) := by
  rw [resolveSection] at hsec
  by_cases hpath : path = []
  · rw [if_pos hpath] at hsec
    cases hfind : (parseSections W text).find? fun s => s.level == 0 with
    | none =>
      rw [hfind] at hsec
      cases hsec
    | some s =>
      rw [hfind] at hsec
      cases hsec
      have hzero := List.find?_some hfind
      rw [beq_iff_eq] at hzero
      omega
  · rw [if_neg hpath] at hsec
    refine ⟨hpath, ?_⟩
    cases hresolve : resolveHeading (parseSections W text) path with
    | error e =>
      rw [hresolve] at hsec
      cases hsec
    | ok o =>
      cases o with
      | none =>
        rw [hresolve, hxml] at hsec
        cases hsec
      | some s =>
        rw [hresolve] at hsec
        cases hsec
        rfl

theorem resolveSection_of_resolveHeading (hpath : path ≠ [])
    (h : resolveHeading (parseSections W text) path = .ok (some sec)) : resolveSection W text path = .ok sec := by
  rw [resolveSection, if_neg hpath, h]
  rfl

/-- **An edit of a body is local, and is read back.** -/
theorem setSectionBody_edited (hsec : resolveSection W text path = .ok sec)
    (hlevel : 0 < sec.level) (hxml : resolveXmlSection W text path = .ok none) (hline : EndsWithNewline text sec)
    {body : List Char} (hfits : Fits W sec.level (text.drop sec.stop) body) :
    Edited W text (setSectionBody text sec body) path sec body := by
  obtain ⟨hpath, hresolve⟩ := resolveHeading_of_resolveSection hsec hlevel hxml
  obtain ⟨c, rfl, rfl, hfits', htext⟩ := setSectionBody_local (eq_of_name hresolve).1 hlevel hline hfits
  obtain ⟨n, hn⟩ := padded_eq body c.after.flatten
  have hbody : bodyOf (setSectionBody c.text c.sectionOwn body) (c.edit (padded_ends body _) hfits').sectionOwn =
      padded body c.after.flatten := by
    rw [← htext, Cut.bodyOf_own]
    exact flatten_splitlines _
  have hheadings : headings W none (splitlines (padded body c.after.flatten)) = headings W none (splitlines body) := by
    rw [hn]
    exact (headings_append_newlines body n).1
  refine ⟨(c.edit (padded_ends body _) hfits').sectionOwn, ?_, ⟨n, by rw [hbody, hn]⟩, fun h => ?_⟩
  · rw [← htext]
    exact c.edit_local _ hfits'
  · have hresolve' : resolveSection W (setSectionBody c.text c.sectionOwn body) path =
        .ok (c.edit (padded_ends body _) hfits').sectionOwn := by
      obtain hfull | hsame | hnew := h
      · rw [← htext]
        exact resolveSection_of_resolveHeading hpath (c.resolveHeading_edit_of_path _ hfits' hfull hresolve)
      · rw [← htext]
        rw [← hheadings, Cut.bodyOf_own, c.splitlines_body] at hsame
        exact resolveSection_of_resolveHeading hpath (c.resolveHeading_edit_of_headings _ hfits' hsame hresolve)
      · exact hnew
    rw [readSection, hresolve']
    rfl

theorem fits_bodyOf (hmem : sec ∈ parseSections W text) (hlevel : 0 < sec.level)
    (hline : EndsWithNewline text sec) : Fits W sec.level (text.drop sec.stop) (bodyOf text sec) := by
  obtain ⟨c, rfl, rfl⟩ := exists_cut hmem hlevel hline
  have hdrop : c.text.drop c.sectionOwn.stop = c.after.flatten := c.drop_stop
  rw [hdrop, Cut.bodyOf_own]
  refine ⟨by rw [c.splitlines_body]; exact c.deeper, ?_⟩
  rw [c.splitlines_body]
  exact c.next.imp (fun hnil => by rw [hnil]; rfl) fun h => h.1

/-- **The edits of a section.** A path names a section with a heading, whose line ends with a newline. Content without
fence lines and without headings of the level or above replaces its body or is put behind it, less a redundant heading
in front, and a patch changes its body to one that fits: each edit is local, and what it makes of the body is read
back. -/
theorem section_edits {text path : List Char} {sec : Section} (hsec : resolveSection W text path = .ok sec)
    (hlevel : 0 < sec.level) (hxml : resolveXmlSection W text path = .ok none) (hline : EndsWithNewline text sec) :
    (∀ content, StripsHeading content sec.level sec.heading (stripRedundantLeadingHeading W content sec)) ∧
    (∀ content, Plain W sec.level (stripRedundantLeadingHeading W content sec).1 →
      ∃ text', replaceSection W text path content = .ok (text', (stripRedundantLeadingHeading W content sec).2) ∧
        Edited W text text' path sec (stripRedundantLeadingHeading W content sec).1) ∧
    (∀ added, Plain W sec.level (stripRedundantLeadingHeading W added sec).1 →
      ∃ text', appendSection W text path added = .ok (text', (stripRedundantLeadingHeading W added sec).2) ∧
        Edited W text text' path sec (terminated (bodyOf text sec) ++ (stripRedundantLeadingHeading W added sec).1)) ∧
    ∀ target replacement every, target ≠ [] → target <:+: bodyOf text sec →
      Fits W sec.level (text.drop sec.stop) (replaced target replacement every 0 (bodyOf text sec)) →
      ∃ text' n, patchSectionBody W text path target replacement every = .ok (text', n) ∧
        Edited W text text' path sec (replaced target replacement every 0 (bodyOf text sec)) := by
  have hmem := (eq_of_name (resolveHeading_of_resolveSection hsec hlevel hxml).2).1
  have hreject : rejectXmlBlockMutation W text path = .ok () := by
    rw [rejectXmlBlockMutation, hxml]
    rfl
  refine ⟨fun content => stripLeadingHeading_spec W content _ _, fun content hplain => ?_, fun added hplain => ?_,
    fun target replacement every htarget hinfix hfits => ?_⟩
  · refine ⟨_, ?_, setSectionBody_edited hsec hlevel hxml hline (hplain.fits _)⟩
    rw [replaceSection, hreject, hsec]
    rfl
  · refine ⟨_, ?_, setSectionBody_edited hsec hlevel hxml hline ((fits_bodyOf hmem hlevel hline).append hplain)⟩
    rw [appendSection, hreject, hsec]
    rfl
  · refine ⟨_, if every then occurrences target 0 (bodyOf text sec) else 1, ?_,
      setSectionBody_edited hsec hlevel hxml hline hfits⟩
    rw [patchSectionBody, if_neg htarget, hreject, hsec]
    change (if ¬ target <:+: bodyOf text sec then _ else _) = _
    rw [if_neg (not_not.2 hinfix)]
    rfl

/-- A text with two sections of a level. -/
def targetText : List Char := "## Target\n\nold\n\n## Other\nx\n".toList

def newTarget : List Char := "## Target\nnew\n".toList

/-- A section is replaced and read back. -/
theorem target_edited : ∃ text', replaceSection asciiWords targetText "Target".toList newTarget = .ok (text', true) ∧
    ∃ sec, Edited asciiWords targetText text' "Target".toList sec "new\n".toList := by
  have hsec : resolveSection asciiWords targetText "Target".toList =
      .ok ⟨"Target".toList, 2, "Target".toList, 1, 10, 16, 6⟩ := rfl
  have hxml : resolveXmlSection asciiWords targetText "Target".toList = .ok none := rfl
  obtain ⟨-, hreplace, -⟩ := section_edits hsec (by decide) hxml ⟨"## Target\n".toList, rfl, rfl⟩
  obtain ⟨text', h, hedited⟩ := hreplace newTarget ⟨by decide, by decide⟩
  exact ⟨text', h, _, hedited⟩

/-- A section named by its heading, under another one. -/
def nestedText : List Char := "# P\n## T\nx\n".toList

/-- A deeper heading in the content makes a path that is no full path ambiguous. -/
theorem nested_ambiguous : ¬ ∀ (text path content : List Char) (sec : Section),
    resolveSection asciiWords text path = .ok sec → 0 < sec.level → resolveXmlSection asciiWords text path = .ok none →
      Plain asciiWords sec.level content → ∃ text' b n, replaceSection asciiWords text path content = .ok (text', b) ∧
        readSection asciiWords text' path = .ok (content ++ List.replicate n '\n') := by
  intro h
  obtain ⟨text', b, n, hreplace, hread⟩ :=
    h nestedText ['T'] "### T\n".toList _ rfl (by decide) rfl ⟨by decide, by decide⟩
  have hnew : replaceSection asciiWords nestedText ['T'] "### T\n".toList =
      .ok ("# P\n## T\n### T\n".toList, false) := rfl
  rw [hnew, Except.ok.injEq, Prod.mk.injEq] at hreplace
  obtain ⟨rfl, -⟩ := hreplace
  have hambiguous : readSection asciiWords "# P\n## T\n### T\n".toList ['T'] = .error .ambiguous := rfl
  rw [hambiguous] at hread
  cases hread

end LlmGateway.MarkdownSections
