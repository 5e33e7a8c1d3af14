import LlmGateway.SessionStore.Layout

/-!
# Reading the sections of a transcript

What stands under the headings of a transcript is read back: the meta (`parseMetaBlock_metaTexts`), the lines of the
index and of the archive map (`nonemptyLines_linesOrNone`), and the tools digest and the body of a turn
(`Turn.Described.parseTurnBody_eq`), whatever the body contains.
-/

namespace LlmGateway.SessionStore

open Text

variable {W : WordClass}

/-! ## Blocks of lines -/

/-- A line that begins with a character that is no white space. -/
def Starts (s : List Char) : Prop := ∃ c t, s = c :: t ∧ Json.isSpace c = false

variable {s : List Char} {l : List (List Char)}

theorem Starts.rstrip_ne_nil (h : Starts s) : rstrip s ≠ [] := by
  obtain ⟨c, t, rfl, hc⟩ := h
  rw [rstrip_cons_of_not_isSpace hc]
  exact List.cons_ne_nil _ _

theorem Starts.strip_eq (h : Starts s) : strip s = rstrip s := by
  obtain ⟨c, t, rfl, hc⟩ := h
  exact strip_cons_of_not_isSpace hc t

theorem Starts.append (h : Starts s) (t : List Char) : Starts (s ++ t) := by
  obtain ⟨c, u, rfl, hc⟩ := h
  exact ⟨c, u ++ t, rfl, hc⟩

theorem starts_of_stripped (h : Stripped s) (hne : s ≠ []) : Starts s := by
  cases s with
  | nil => exact (hne rfl).elim
  | cons c s => exact ⟨c, s, rfl, h.head⟩

theorem strip_intercalate (hne : l ≠ []) :
    strip (['\n'].intercalate ([] :: (l ++ [[]]))) = strip (['\n'].intercalate l) := by
  have hlast : ['\n'].intercalate (l ++ [[]]) = ['\n'].intercalate l ++ ['\n'] := by
    have hright : ['\n'].intercalate (l ++ [[]]) ++ ['\n'] = (['\n'].intercalate l ++ ['\n']) ++ ['\n'] := by
      rw [intercalate_append_newline (by simp), unlines_append, intercalate_append_newline hne]
      rfl
    exact List.append_cancel_right hright
  rw [List.intercalate_cons_of_ne_nil (by simp), hlast, List.nil_append, List.singleton_append,
    strip_cons_of_isSpace (by decide), strip_append_newline]

theorem cut_of_forall (h : ∀ s ∈ l, SingleLine s) : cut l = l := by
  induction l with
  | nil => rfl
  | cons s l ih =>
    have hcons : cut (s :: l) = cut [s] ++ cut l := cut_append [s] l
    rw [hcons, cut_of_singleLine (h s List.mem_cons_self), ih fun t ht => h t (List.mem_cons_of_mem _ ht)]
    rfl

theorem lines_of_block (hne : l ≠ []) (hl : ∀ s ∈ l, SingleLine s ∧ Starts s) :
    ((splitlines (strip (['\n'].intercalate l))).map content).map strip = l.map strip := by
  have hstarts : Starts (['\n'].intercalate l) := by
    cases l with
    | nil => exact (hne rfl).elim
    | cons s l =>
      obtain ⟨-, hs⟩ := hl s List.mem_cons_self
      cases l with
      | nil => simpa using hs
      | cons t l =>
        rw [List.intercalate_cons_of_ne_nil (List.cons_ne_nil _ _), List.append_assoc]
        exact hs.append _
  rw [hstarts.strip_eq]
  exact (splitlines_rstrip_intercalate hne fun s hs => ⟨(hl s hs).1, (hl s hs).2.rstrip_ne_nil⟩).1

/-! ## The meta -/

/-- A key and a value that are read back. -/
structure MetaEntry (W : WordClass) (e : List Char × List Char) : Prop where
  key : Plain W e.1
  no_colon : ':' ∉ e.1
  value : Stripped e.2
  single : SingleLine e.2

theorem MetaEntry.starts {e : List Char × List Char} (h : MetaEntry W e) : Starts (metaText e) := by
  rw [metaText_eq]
  by_cases hk : e.1 = []
  · exact ⟨':', ' ' :: e.2, by rw [hk, List.nil_append], by decide⟩
  · exact (starts_of_stripped h.key.stripped hk).append _

theorem metaItem_metaText {e : List Char × List Char} (h : MetaEntry W e)
    (metadata : Dict (List Char) (List Char)) : metaItem metadata (strip (metaText e)) = metadata.set e.1 e.2 := by
  have hne : ∀ c ∈ e.1, (c != ':') = true := fun c hc => by
    rw [bne_iff_ne]
    rintro rfl
    exact h.no_colon hc
  have htake : ∀ s : List Char, (e.1 ++ ':' :: s).takeWhile (fun c => c != ':') = e.1 := fun s => by
    rw [List.takeWhile_append_of_pos hne, List.takeWhile_cons_of_neg (by decide), List.append_nil]
  have hdrop : ∀ s : List Char, (e.1 ++ ':' :: s).dropWhile (fun c => c != ':') = ':' :: s := fun s => by
    rw [List.dropWhile_append_of_pos hne, List.dropWhile_cons_of_neg (by decide)]
  have hvalue : strip (rstrip (' ' :: e.2)) = e.2 := by
    rw [strip_rstrip, strip_cons_of_isSpace (by decide)]
    exact h.value
  rw [metaItem, metaText_eq, strip_append_colon h.key.stripped, if_pos (by simp), htake, hdrop, List.drop_one,
    List.tail_cons, hvalue, h.key.stripped]

/-- **The meta comes back.** -/
theorem parseMetaBlock_metaTexts {metadata : Dict (List Char) (List Char)} (hne : metadata.items ≠ [])
    (h : ∀ e ∈ metadata.items, MetaEntry W e) :
    parseMetaBlock (strip (['\n'].intercalate (metadata.items.map metaText))) = metadata := by
  have hlines : ∀ s ∈ metadata.items.map metaText, SingleLine s ∧ Starts s := by
    intro s hs
    obtain ⟨e, he, rfl⟩ := List.mem_map.1 hs
    exact ⟨(metaText_quiet (h e he).key (h e he).single).single, (h e he).starts⟩
  have hfold : ∀ (l : List (List Char × List Char)) (d : Dict (List Char) (List Char)), (∀ e ∈ l, MetaEntry W e) →
      ((l.map metaText).map strip).foldl metaItem d = l.foldl (fun d e => d.set e.1 e.2) d := by
    intro l
    induction l with
    | nil => exact fun d _ => rfl
    | cons e l ih =>
      intro d hl
      rw [List.map_cons, List.map_cons, List.foldl_cons, metaItem_metaText (hl e List.mem_cons_self), List.foldl_cons,
        ih _ fun e' he' => hl e' (List.mem_cons_of_mem _ he')]
  rw [parseMetaBlock, lines_of_block (by simpa using hne) hlines, hfold _ _ h, Dict.foldl_set_items]

/-! ## The lines of the index and of the archive map -/

/-- A line that is read back. -/
structure ListLine (W : WordClass) (s : List Char) : Prop where
  plain : Plain W s
  ne_nil : s ≠ []
  ne_none : s ≠ noneLine

theorem single_starts_noneLine : SingleLine noneLine ∧ Starts noneLine :=
  ⟨by decide, '(', ['n', 'o', 'n', 'e', ')'], by decide, by decide⟩

/-- **The lines come back**, none included. -/
theorem nonemptyLines_linesOrNone (h : ∀ s ∈ l, ListLine W s) :
    nonemptyLines (strip (['\n'].intercalate (linesOrNone l))) = l := by
  cases hl : l with
  | nil => decide
  | cons s t =>
    rw [← hl]
    have hne : l ≠ [] := by simp [hl]
    have hlines : linesOrNone l = l := if_neg (by simpa using hne)
    have hstrip : l.map strip = l := by
      conv_rhs => rw [← List.map_id l]
      exact List.map_congr_left fun s hs => (h s hs).plain.stripped
    rw [nonemptyLines, hlines, lines_of_block hne fun s hs =>
      ⟨(h s hs).plain.single, starts_of_stripped (h s hs).plain.stripped (h s hs).ne_nil⟩, hstrip]
    refine List.filter_eq_self.2 fun s hs => ?_
    simp [(h s hs).ne_nil, (h s hs).ne_none]

/-! ## Turns -/

theorem padded_spec {n : ℤ} (h : 0 ≤ n) (h' : n ≤ 9999) :
    (padded n).length = 4 ∧ (∀ c ∈ padded n, c.isDigit = true) ∧ Decimal.ofText (padded n) = some n := by
  obtain ⟨k, rfl⟩ := Int.eq_ofNat_of_zero_le h
  have hlen : (Nat.toDigits 10 k).length ≤ 4 := (Nat.length_toDigits_le_iff (by decide) (by decide)).2 (by omega)
  have hpad : padded (k : ℤ) = List.replicate (4 - (Nat.toDigits 10 k).length) '0' ++ Nat.toDigits 10 k := rfl
  have hlength : (padded (k : ℤ)).length = 4 := by
    rw [hpad, List.length_append, List.length_replicate]
    omega
  have hdigit : ∀ c ∈ padded (k : ℤ), c.isDigit = true := by
    intro c hc
    obtain hc | hc := List.mem_append.1 (hpad ▸ hc)
    · rw [List.eq_of_mem_replicate hc]
      decide
    · exact Decimal.isDigit_toDigits hc
  refine ⟨hlength, hdigit, ?_⟩
  have hne : padded (k : ℤ) ≠ [] := List.ne_nil_of_length_pos (by omega)
  have hmax : (padded (k : ℤ)).length ≤ Decimal.maxStrDigits := by
    rw [hlength]
    decide
  rw [Decimal.ofText_of_isDigit hne hdigit hmax, hpad, Nat.ofDigitChars_append, Nat.ofDigitChars_replicate_zero,
    Nat.mul_zero, Nat.ofDigitChars_ten_toDigits]

/-- What the transcript asks of a turn. -/
structure Turn.Described (t : Turn) : Prop where
  nonneg : 0 ≤ t.n
  le : t.n ≤ 9999
  role : t.role = "user".toList ∨ t.role = "assistant".toList
  tools : ∀ tools ∈ t.toolsDigest, Stripped tools ∧ SingleLine tools ∧ tools ≠ []

theorem after?_append (p s : List Char) : after? p (p ++ s) = some s := by
  rw [after?, if_pos (List.isPrefixOf_iff_prefix.2 (List.prefix_append p s)), List.drop_left]

namespace Turn

variable {t : Turn}

/-- The text of the heading. -/
def title (t : Turn) : List Char := "Turn ".toList ++ padded t.n ++ " — ".toList ++ t.role

theorem heading_def (t : Turn) : t.heading = "## Turn ".toList ++ padded t.n ++ " — ".toList ++ t.role := rfl

theorem title_def (t : Turn) : t.title = "Turn ".toList ++ padded t.n ++ " — ".toList ++ t.role := rfl

theorem heading_eq (t : Turn) : t.heading = "## ".toList ++ t.title := by
  have hhead : "## Turn ".toList = "## ".toList ++ "Turn ".toList := rfl
  rw [heading_def, title_def, hhead, List.append_assoc, List.append_assoc, List.append_assoc, List.append_assoc,
    List.append_assoc]

theorem Described.exists_role (h : t.Described) :
    ∃ s c, t.role = s ++ [c] ∧ Json.isSpace c = false ∧ isBlank c = false ∧ c ≠ '#' := by
  obtain hr | hr := h.role <;> rw [hr]
  · exact ⟨['u', 's', 'e'], 'r', by decide⟩
  · exact ⟨['a', 's', 's', 'i', 's', 't', 'a', 'n'], 't', by decide⟩

theorem Described.strip_append_role (h : t.Described) {s : List Char} (hs : Starts s) :
    strip (s ++ t.role) = s ++ t.role := by
  obtain ⟨u, d, hrole, hd, -, -⟩ := h.exists_role
  rw [(hs.append _).strip_eq, hrole, ← List.append_assoc, rstrip_append_single, if_neg (by simp [hd])]

theorem Described.strip_title (h : t.Described) : strip t.title = t.title :=
  h.strip_append_role ((Starts.append ⟨'T', "urn ".toList, rfl, by decide⟩ _).append _)

theorem Described.strip_heading (h : t.Described) : strip t.heading = t.heading :=
  h.strip_append_role ((Starts.append ⟨'#', "# Turn ".toList, rfl, by decide⟩ _).append _)

theorem Described.singleLine (h : t.Described) : SingleLine t.heading := by
  intro c hc
  simp only [heading_def, List.mem_append] at hc
  obtain ((hc | hc) | hc) | hc := hc
  · exact (show SingleLine "## Turn ".toList by decide) c hc
  · have hbounds := Decimal.bounds_of_isDigit ((padded_spec h.nonneg h.le).2.1 c hc)
    have hne : ∀ d : Char, d.toNat < 48 → (c == d) = false := fun d hd => by
      rw [beq_eq_false_iff_ne]
      rintro rfl
      omega
    have hnat : ∀ k, k < 48 ∨ 57 < k → (c.toNat == k) = false := fun k hk => by
      rw [beq_eq_false_iff_ne]
      omega
    simp only [isBreak, hne '\n' (by decide), hne '\r' (by decide), hnat 0x0b (by decide), hnat 0x0c (by decide),
      hnat 0x1c (by decide), hnat 0x1d (by decide), hnat 0x1e (by decide), hnat 0x85 (by decide),
      hnat 0x2028 (by decide), hnat 0x2029 (by decide), Bool.or_self]
  · exact (show SingleLine " — ".toList by decide) c hc
  · obtain hr | hr := h.role
    · exact (show SingleLine "user".toList by decide) c (hr ▸ hc)
    · exact (show SingleLine "assistant".toList by decide) c (hr ▸ hc)

theorem Described.headOf_eq (h : t.Described) : headOf t.heading = some (.turn (padded t.n) t.role) := by
  obtain ⟨hlen, hdigit, -⟩ := padded_spec h.nonneg h.le
  have hascii : (padded t.n).all (fun c => (Decimal.toAscii c).isDigit) = true := by
    refine List.all_eq_true.2 fun c hc => ?_
    have hbounds := Decimal.bounds_of_isDigit (hdigit c hc)
    rw [Decimal.toAscii, if_pos (by omega)]
    exact hdigit c hc
  have hrest : after? "## Turn ".toList t.heading = some (padded t.n ++ (" — ".toList ++ t.role)) := by
    have hassoc : t.heading = "## Turn ".toList ++ (padded t.n ++ (" — ".toList ++ t.role)) := by
      rw [heading_def, List.append_assoc, List.append_assoc]
    exact hassoc ▸ after?_append _ _
  have htake : (padded t.n ++ (" — ".toList ++ t.role)).take 4 = padded t.n := by
    rw [← hlen, List.take_left]
  have hdrop : (padded t.n ++ (" — ".toList ++ t.role)).drop 4 = " — ".toList ++ t.role := by
    rw [← hlen, List.drop_left]
  have hrole : (t.role == "user".toList || t.role == "assistant".toList) = true := by
    rw [Bool.or_eq_true, beq_iff_eq, beq_iff_eq]
    exact h.role
  have hturn : turnOf t.heading = some (padded t.n, t.role) := by
    rw [turnOf, hrest, Option.bind_some, htake, hdrop, if_pos (by simp [hlen, hascii]), after?_append,
      Option.filter_some, if_pos hrole, Option.map_some]
  rw [headOf, hturn]

theorem Described.atxHeading_eq (h : t.Described) : atxHeading t.heading = some (2, t.title) := by
  obtain ⟨u, d, hrole, hd, hblank, hhash⟩ := h.exists_role
  have hlazy : lazyText t.title = t.title := by
    rw [title_def, hrole, ← List.append_assoc]
    exact lazyText_append_single hblank hhash
  have hcons : t.heading = List.replicate 2 '#' ++ ' ' :: t.title := t.heading_eq
  obtain ⟨s, hs⟩ : ∃ s, t.title = 'T' :: s := ⟨"urn ".toList ++ padded t.n ++ " — ".toList ++ t.role, rfl⟩
  rw [hcons, hs, atxHeading_hashes (by decide) (by decide) (by decide), ← hs, hlazy, h.strip_title]

end Turn

/-! ## The body of a turn -/

theorem starts_openingFence (W : WordClass) (body : List Char) :
    ∃ s, openingFence W body = chooseFenceChar body :: s := by
  obtain ⟨n, hn⟩ : ∃ n, fenceLength W body (chooseFenceChar body) = n + 1 :=
    Nat.exists_eq_succ_of_ne_zero (by have := three_le_fenceLength W body (chooseFenceChar body); omega)
  exact ⟨_, by rw [openingFence, hn, List.replicate_succ, List.cons_append]⟩

theorem skipBlank_nil_cons (l : List (List Char)) : skipBlank ([] :: l) = skipBlank l := rfl

theorem skipBlank_cons (h : Starts s) (l : List (List Char)) : skipBlank (s :: l) = s :: l :=
  List.dropWhile_cons_of_neg (by rw [h.strip_eq]; simpa using h.rstrip_ne_nil)

theorem takeTools_openingFence (W : WordClass) (body : List Char) (l : List (List Char)) :
    takeTools (openingFence W body :: l) = (none, openingFence W body :: l) := by
  obtain ⟨s, hs⟩ := starts_openingFence W body
  have hnone : toolsOf (strip (openingFence W body)) = none := by
    rw [hs, strip_cons_of_not_isSpace (not_isSpace_chooseFenceChar body),
      rstrip_cons_of_not_isSpace (not_isSpace_chooseFenceChar body), toolsOf]
    have hafter : after? "tools:".toList (chooseFenceChar body :: rstrip s) = none := by
      obtain hc | hc := chooseFenceChar_eq body <;> rw [hc] <;> rfl
    rw [hafter]
    rfl
  rw [takeTools, hnone]

/-- The line of a tools digest. -/
def toolsLine (tools : List Char) : List Char := "tools: ".toList ++ tools

theorem starts_toolsLine (tools : List Char) : Starts (toolsLine tools) :=
  Starts.append ⟨'t', "ools: ".toList, rfl, by decide⟩ _

theorem toolsLine_quiet {tools : List Char} (h : SingleLine tools) : Quiet W (toolsLine tools) := by
  have hcons : toolsLine tools = 't' :: ("ools: ".toList ++ tools) := rfl
  refine ⟨fun c hc => ?_, ?_, ?_, ?_⟩
  · obtain hc | hc := List.mem_append.1 hc
    · exact (show SingleLine "tools: ".toList by decide) c hc
    · exact h c hc
  · rw [hcons]
    exact isFenceLine_of_ne (by decide) (by decide) _
  · rw [hcons]
    exact atxHeading_of_ne (by decide) _
  · rw [hcons]
    rfl

theorem takeTools_toolsLine {tools : List Char} (h : Stripped tools) (hne : tools ≠ []) (l : List (List Char)) :
    takeTools (toolsLine tools :: l) = (some tools, skipBlank l) := by
  have hr : rstrip tools ≠ [] := by rwa [h.rstrip_eq]
  have hline : rstrip (toolsLine tools) = "tools: ".toList ++ rstrip tools := rstrip_append_of_ne hr
  have hstrip : strip (toolsLine tools) = "tools:".toList ++ ' ' :: tools := by
    rw [(starts_toolsLine tools).strip_eq, hline, h.rstrip_eq]
    rfl
  have hvalue : strip (' ' :: tools) = tools := by
    rw [strip_cons_of_isSpace (by decide)]
    exact h
  have htools : toolsOf (strip (toolsLine tools)) = some tools := by
    rw [hstrip, toolsOf, after?_append, Option.filter_some, if_pos (by rfl), Option.map_some, hvalue]
  rw [takeTools, htools]

theorem parseTurnBody_of_takeTools {lines : List (List Char)} {tools : Option (List Char)} {body : List Char}
    (h : takeTools (skipBlank lines) = (tools, wrapLines W body ++ [[]])) :
    parseTurnBody W lines = .ok (tools, body) := by
  have hsplit : wrapLines W body ++ [[]] = (wrapFenced W body ++ '\n' :: []).splitOn '\n' := by
    rw [List.splitOn_append_cons_self, ← cut_wrapFenced, cut, List.flatMap_cons, List.flatMap_nil, List.append_nil]
    rfl
  have hextract : extractFenced W (['\n'].intercalate (wrapLines W body ++ [[]])) = .ok body := by
    rw [hsplit, List.intercalate_splitOn, extractFenced, ← hsplit]
    exact extractLines_wrapLines W body [[]]
  have hcons : wrapLines W body ++ [[]] = openingFence W body :: (body.splitOn '\n' ++ [closingFence W body] ++ [[]]) :=
    rfl
  have hfence : isFenceLine W (openingFence W body) = true := by
    rw [isFenceLine, parseFenceOpen_openingFence]
    rfl
  rw [hcons] at h hextract
  rw [parseTurnBody, h]
  simp only [hfence, if_true, hextract]

namespace Turn

variable {t : Turn}

/-- The parts under the heading of a turn. -/
def tail (W : WordClass) (t : Turn) : List (List Char) :=
  (match t.toolsDigest with
    | none => []
    | some tools => [toolsLine tools, []]) ++ [wrapFenced W t.body]

theorem Described.passed_tail (h : t.Described) : Passed W (t.tail W) := by
  refine Passed.append ?_ (passed_wrapFenced W t.body)
  split
  · exact .nil
  · rename_i tools htools
    exact .cons (toolsLine_quiet (h.tools tools htools).2.1).passed quiet_nil.passed

/-- **The body of a turn comes back**, and its tools digest with it. -/
theorem Described.parseTurnBody_eq (h : t.Described) :
    parseTurnBody W ([] :: (cut (t.tail W) ++ [[]])) = .ok (t.toolsDigest, t.body) := by
  obtain ⟨s, hs⟩ := starts_openingFence W t.body
  have hopening : Starts (openingFence W t.body) := ⟨_, s, hs, not_isSpace_chooseFenceChar t.body⟩
  have hwrapped : skipBlank (wrapLines W t.body ++ [[]]) = wrapLines W t.body ++ [[]] := by
    rw [wrapLines, List.cons_append, skipBlank_cons hopening]
  refine parseTurnBody_of_takeTools ?_
  rw [skipBlank_nil_cons, tail, cut_append, cut_wrapFenced]
  cases htools : t.toolsDigest with
  | none =>
    have hnil : cut [] ++ wrapLines W t.body = wrapLines W t.body := rfl
    simp only [hnil, hwrapped]
    rw [wrapLines, List.cons_append]
    exact takeTools_openingFence W t.body _
  | some tools =>
    obtain ⟨hstripped, hsingle, hne⟩ := h.tools tools htools
    have hcut : cut [toolsLine tools, []] = [toolsLine tools, []] := by
      refine cut_of_forall fun u hu => ?_
      obtain rfl | hu := List.mem_cons.1 hu
      · exact (toolsLine_quiet (W := W) hsingle).single
      · rw [List.mem_singleton.1 hu]
        exact fun c hc => (by cases hc)
    simp only [hcut, List.cons_append, List.nil_append]
    rw [skipBlank_cons (starts_toolsLine tools), takeTools_toolsLine hstripped hne, skipBlank_nil_cons, hwrapped]

end Turn

end LlmGateway.SessionStore
