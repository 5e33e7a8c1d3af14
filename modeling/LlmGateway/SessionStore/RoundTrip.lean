import LlmGateway.SessionStore.Reading

/-!
# The round trip of a transcript

What `render_transcript` writes, `parse_transcript` reads back, with the defaults of the meta filled in; the text
does not change when it is written again, and `parse_sections` finds the title, the fixed sections and the turns in
it and nothing else (`round_trip`). The bodies of the turns are arbitrary.

The format has no escapes: a key ends at its first colon, and `(none)` stands for no lines. So keys with a colon and
lines `(none)` do not come back, nor do lines of the archive map that are no plain text
(`round_trip_needs_readable`).
-/

namespace LlmGateway.SessionStore

open Text

variable {W : WordClass}

/-! ## The pieces of a document -/

theorem plain_of_cons {c : Char} {s : List Char} (hstripped : Stripped (c :: s)) (hsingle : SingleLine (c :: s))
    (hspace : Json.isSpace c = false) (hc : ¬ (c = '\x60' ∨ c = '~')) (hhash : c ≠ '#') : Plain W (c :: s) :=
  ⟨hstripped, hsingle, isFenceLine_of_ne hspace hc s, atxHeading_of_ne hhash s⟩

/-- The heading of a fixed section. -/
def FixedSection.heading (name : FixedSection) : List Char := "## ".toList ++ name.name

theorem FixedSection.heading_spec (name : FixedSection) :
    SingleLine name.heading ∧ headOf (strip name.heading) = some (.fixed name) ∧
      atxHeading name.heading = some (2, name.name) := by
  cases name <;> decide

/-- A fixed section. -/
def FixedSection.piece (name : FixedSection) (parts : List (List Char)) : Piece := ⟨name.heading, .fixed name, parts⟩

theorem FixedSection.fits_piece (name : FixedSection) {parts : List (List Char)} (h : Passed W parts) :
    (name.piece parts).Fits W where
  single := name.heading_spec.1
  not_fence := isFenceLine_of_ne (c := '#') (by decide) (by decide) _
  isSection := by cases name <;> rfl
  headOf_eq := name.heading_spec.2.1
  isHeading := Option.isSome_iff_exists.2 ⟨_, name.heading_spec.2.2⟩
  passed := h

/-- A turn. -/
def Turn.piece (W : WordClass) (t : Turn) : Piece := ⟨t.heading, .turn (padded t.n) t.role, t.tail W⟩

theorem Turn.Described.fits_piece {t : Turn} (h : t.Described) : (t.piece W).Fits W where
  single := h.singleLine
  not_fence := isFenceLine_of_ne (c := '#') (by decide) (by decide) _
  isSection := List.isPrefixOf_iff_prefix.2 ⟨t.title, t.heading_eq.symm⟩
  headOf_eq := by
    change headOf (strip t.heading) = _
    rw [h.strip_heading, h.headOf_eq]
    rfl
  isHeading := by
    change (atxHeading t.heading).isSome = true
    rw [h.atxHeading_eq]
    rfl
  passed := h.passed_tail

namespace SessionDoc

/-- Stripped single-line text free of headings and fence lines, and turns in their order. -/
structure Described (W : WordClass) (doc : SessionDoc) : Prop where
  sessionId : Plain W doc.sessionId ∧ doc.sessionId ≠ []
  metadata : ∀ e ∈ doc.metadata.items, Plain W e.1 ∧ Plain W e.2
  rollup : Plain W doc.rollupText
  index : ∀ s ∈ doc.indexLines, Plain W s ∧ s ≠ []
  numbers : doc.turns.Pairwise fun s t => s.n < t.n
  turns : ∀ t ∈ doc.turns, t.Described

/-- What the format can say: keys without a colon, and lines that are plain text and not the line that says that
there are none. -/
structure Readable (W : WordClass) (doc : SessionDoc) : Prop where
  keys : ∀ e ∈ doc.metadata.items, ':' ∉ e.1
  index : noneLine ∉ doc.indexLines
  archiveMap : ∀ s ∈ doc.archiveMapLines, ListLine W s

/-- The document with the defaults of its meta. -/
def withDefaults (doc : SessionDoc) : SessionDoc := { doc with metadata := doc.fullMeta }

/-- The headings of a document: the title, the fixed sections and the turns. -/
def outline (doc : SessionDoc) : List (ℕ × List Char) :=
  (1, strip (lazyText ("Session ".toList ++ doc.sessionId))) ::
    ([FixedSection.metadata, .rollup, .index, .archiveMap].map fun name => (2, name.name)) ++
    doc.turns.map fun t => (2, t.title)

/-- The first line. -/
def titleLine (doc : SessionDoc) : List Char := "# Session ".toList ++ doc.sessionId

/-- The sections of a document. -/
def pieces (W : WordClass) (doc : SessionDoc) : List Piece :=
  [FixedSection.metadata.piece (doc.fullMeta.items.map metaText), FixedSection.rollup.piece [doc.rollupText],
    FixedSection.index.piece (linesOrNone doc.indexLines),
    FixedSection.archiveMap.piece (linesOrNone doc.archiveMapLines)] ++
    doc.turns.map (Turn.piece W)

variable {doc : SessionDoc}

theorem flatMap_turnParts (W : WordClass) (turns : List Turn) :
    turns.flatMap (Turn.parts W) ++ [[]] = [] :: piecesParts (turns.map (Turn.piece W)) := by
  induction turns with
  | nil => rfl
  | cons t turns ih =>
    have hparts : t.parts W = [] :: (t.heading :: [] :: t.tail W) := rfl
    have hcons : piecesParts ((t :: turns).map (Turn.piece W)) =
        t.heading :: [] :: (t.tail W ++ [[]]) ++ piecesParts (turns.map (Turn.piece W)) := rfl
    rw [List.flatMap_cons, List.append_assoc, ih, hparts, hcons]
    simp only [List.cons_append, List.append_assoc, List.nil_append]

theorem parts_append (W : WordClass) (h : doc.turns.Pairwise fun s t => s.n < t.n) :
    doc.parts W ++ [[]] = doc.titleLine :: [] :: piecesParts (doc.pieces W) := by
  have hsort : (doc.turns.insertionSort fun s t => s.n ≤ t.n) = doc.turns :=
    List.Pairwise.insertionSort_eq (h.imp fun hlt => le_of_lt hlt)
  have hmeta : (doc.fullMeta.items.map fun e => e.1 ++ ": ".toList ++ e.2) = doc.fullMeta.items.map metaText := rfl
  have hpieces : piecesParts (doc.pieces W) =
      "## Meta".toList :: [] :: (doc.fullMeta.items.map metaText ++ [[]]) ++
      ("## Rollup".toList :: [] :: ([doc.rollupText] ++ [[]]) ++
      ("## Index".toList :: [] :: (linesOrNone doc.indexLines ++ [[]]) ++
      ("## Archive Map".toList :: [] :: (linesOrNone doc.archiveMapLines ++ [[]]) ++
        piecesParts (doc.turns.map (Turn.piece W))))) := rfl
  rw [hpieces, parts, hsort, hmeta, List.append_assoc, flatMap_turnParts]
  simp only [List.append_assoc, List.cons_append, List.nil_append]
  rfl

theorem Described.titleLine_spec (h : doc.Described W) :
    SingleLine doc.titleLine ∧ titleOf (strip doc.titleLine) = some doc.sessionId ∧
      isFenceLine W doc.titleLine = false ∧
      atxHeading doc.titleLine = some (1, strip (lazyText ("Session ".toList ++ doc.sessionId))) := by
  obtain ⟨hplain, hne⟩ := h.sessionId
  have hr : rstrip doc.sessionId ≠ [] := by rwa [hplain.stripped.rstrip_eq]
  have hline : rstrip doc.titleLine = "# Session ".toList ++ rstrip doc.sessionId := rstrip_append_of_ne hr
  have hstarts : Starts doc.titleLine := Starts.append ⟨'#', " Session ".toList, rfl, by decide⟩ _
  refine ⟨fun c hc => ?_, ?_, isFenceLine_of_ne (c := '#') (by decide) (by decide) _, ?_⟩
  · obtain hc | hc := List.mem_append.1 hc
    · exact (show SingleLine "# Session ".toList by decide) c hc
    · exact hplain.single c hc
  · have hid : strip doc.sessionId = doc.sessionId := hplain.stripped
    rw [hstarts.strip_eq, hline, hplain.stripped.rstrip_eq, titleOf, after?_append, Option.filter_some,
      if_pos (by simpa using hne), Option.map_some, hid]
  · exact atxHeading_hashes (n := 1) (by decide) (by decide) (c := 'S') (by decide) _

theorem plain_defaults (W : WordClass) : Plain W "session_id".toList ∧ Plain W "schema_version".toList :=
  ⟨plain_of_cons (c := 's') (s := "ession_id".toList) (by rw [Stripped]; decide) (by decide)
      (by decide) (by decide) (by decide),
    plain_of_cons (c := 's') (s := "chema_version".toList) (by rw [Stripped]; decide) (by decide)
      (by decide) (by decide) (by decide)⟩

theorem Described.metaEntry (h : doc.Described W) (h' : doc.Readable W) : ∀ e ∈ doc.fullMeta.items, MetaEntry W e := by
  have hcolon : ':' ∉ "session_id".toList ∧ ':' ∉ "schema_version".toList := by decide
  have hone : Stripped "1".toList ∧ SingleLine "1".toList := by
    rw [Stripped]
    decide
  intro e he
  obtain he | rfl := Dict.mem_items_setDefault he
  · obtain he | rfl := Dict.mem_items_setDefault he
    · obtain ⟨hkey, hvalue⟩ := h.metadata e he
      exact ⟨hkey, h'.keys e he, hvalue.stripped, hvalue.single⟩
    · exact ⟨(plain_defaults W).1, hcolon.1, h.sessionId.1.stripped, h.sessionId.1.single⟩
  · exact ⟨(plain_defaults W).2, hcolon.2, hone.1, hone.2⟩

theorem fullMeta_ne_nil (doc : SessionDoc) : doc.fullMeta.items ≠ [] := fun h => by
  have hcontains : doc.fullMeta.contains "schema_version".toList = true := Dict.contains_setDefault _ _ _
  obtain ⟨v, hv⟩ := Dict.contains_iff.1 hcontains
  have hmem := Dict.mem_items_iff.2 hv
  rw [h] at hmem
  cases hmem

theorem fullMeta_withDefaults (doc : SessionDoc) : doc.withDefaults.fullMeta = doc.fullMeta := by
  have hid : doc.fullMeta.contains "session_id".toList = true :=
    Dict.contains_setDefault_of_contains (Dict.contains_setDefault _ _ _) _ _
  have hversion : doc.fullMeta.contains "schema_version".toList = true := Dict.contains_setDefault _ _ _
  change (doc.fullMeta.setDefault "session_id".toList doc.sessionId).setDefault "schema_version".toList "1".toList = _
  rw [Dict.setDefault_of_contains hid, Dict.setDefault_of_contains hversion]

theorem Described.listLine (h : doc.Described W) (h' : doc.Readable W) : ∀ s ∈ doc.indexLines, ListLine W s := by
  intro s hs
  refine ⟨(h.index s hs).1, (h.index s hs).2, ?_⟩
  rintro rfl
  exact h'.index hs

theorem Described.fits_pieces (h : doc.Described W) (h' : doc.Readable W) : ∀ p ∈ doc.pieces W, p.Fits W := by
  have hlist : ∀ l : List (List Char), (∀ s ∈ l, ListLine W s) → Passed W (linesOrNone l) := by
    intro l hl
    refine .of_forall fun s hs => ?_
    rw [linesOrNone] at hs
    split at hs
    · rw [List.mem_singleton.1 hs]
      exact (plain_of_cons (c := '(') (s := "none)".toList) (by rw [Stripped]; decide) (by decide)
        (by decide) (by decide) (by decide)).quiet.passed
    · exact (hl s hs).plain.quiet.passed
  intro p hp
  simp only [pieces, List.cons_append, List.nil_append, List.mem_cons, List.mem_map] at hp
  obtain rfl | rfl | rfl | rfl | ⟨t, ht, rfl⟩ := hp
  · refine FixedSection.fits_piece _ (.of_forall fun s hs => ?_)
    obtain ⟨e, he, rfl⟩ := List.mem_map.1 hs
    exact (metaText_quiet (h.metaEntry h' e he).key (h.metaEntry h' e he).single).passed
  · exact FixedSection.fits_piece _ h.rollup.quiet.passed
  · exact FixedSection.fits_piece _ (hlist _ (h.listLine h'))
  · exact FixedSection.fits_piece _ (hlist _ h'.archiveMap)
  · exact (h.turns t ht).fits_piece

/-! ### The sections are read -/

theorem block_content {l : List (List Char)} (hne : l ≠ []) (hl : ∀ s ∈ l, SingleLine s) (name : FixedSection) :
    strip (['\n'].intercalate (name.piece l).content) = strip (['\n'].intercalate l) := by
  have hcontent : (name.piece l).content = [] :: (l ++ [[]]) := by
    rw [Piece.content, FixedSection.piece, cut_of_forall hl]
  rw [hcontent, strip_intercalate hne]

theorem nonemptyLines_content {l : List (List Char)} (h : ∀ s ∈ l, ListLine W s) (name : FixedSection) :
    nonemptyLines (strip (['\n'].intercalate (name.piece (linesOrNone l)).content)) = l := by
  have hne : linesOrNone l ≠ [] := by
    rw [linesOrNone]
    split
    · exact List.cons_ne_nil _ _
    · rename_i hl
      simpa using hl
  have hsingle : ∀ s ∈ linesOrNone l, SingleLine s := by
    intro s hs
    rw [linesOrNone] at hs
    split at hs
    · rw [List.mem_singleton.1 hs]
      exact single_starts_noneLine.1
    · exact (h s hs).plain.single
  rw [block_content hne hsingle, nonemptyLines_linesOrNone h]

theorem foldlM_turns {turns : List Turn} (h : ∀ t ∈ turns, t.Described) (doc : SessionDoc) :
    (turns.map fun t => ((t.piece W).head, (t.piece W).content)).foldlM (readSection W) doc =
      .ok { doc with turns := doc.turns ++ turns } := by
  induction turns generalizing doc with
  | nil =>
    rw [List.append_nil]
    rfl
  | cons t turns ih =>
    have ht := h t List.mem_cons_self
    have hbody : parseTurnBody W (t.piece W).content = .ok (t.toolsDigest, t.body) := ht.parseTurnBody_eq
    have hread : readSection W doc ((t.piece W).head, (t.piece W).content) =
        .ok { doc with turns := doc.turns ++ [t] } := by
      change readSection W doc (.turn (padded t.n) t.role, (t.piece W).content) = _
      rw [readSection, hbody]
      simp only [(padded_spec ht.nonneg ht.le).2.2, Option.getD_some]
    rw [List.map_cons, List.foldlM_cons, hread]
    refine (ih (fun u hu => h u (List.mem_cons_of_mem _ hu)) _).trans ?_
    rw [List.append_assoc]
    rfl

theorem Described.foldlM_pieces (h : doc.Described W) (h' : doc.Readable W) :
    ((doc.pieces W).map fun p => (p.head, p.content)).foldlM (readSection W) (.titled doc.sessionId) =
      .ok doc.withDefaults := by
  have hmetaLines : ∀ s ∈ doc.fullMeta.items.map metaText, SingleLine s := by
    intro s hs
    obtain ⟨e, he, rfl⟩ := List.mem_map.1 hs
    exact (metaText_quiet (h.metaEntry h' e he).key (h.metaEntry h' e he).single).single
  have hmeta : parseMetaBlock (strip (['\n'].intercalate
      (FixedSection.metadata.piece (doc.fullMeta.items.map metaText)).content)) = doc.fullMeta := by
    rw [block_content (by simpa using doc.fullMeta_ne_nil) hmetaLines,
      parseMetaBlock_metaTexts doc.fullMeta_ne_nil (h.metaEntry h')]
  have hrollup : strip (['\n'].intercalate (FixedSection.rollup.piece [doc.rollupText]).content) = doc.rollupText := by
    rw [block_content (List.cons_ne_nil _ _) fun s hs => (List.mem_singleton.1 hs) ▸ h.rollup.single]
    have hone : ['\n'].intercalate [doc.rollupText] = doc.rollupText := by simp
    rw [hone, h.rollup.stripped]
  have hindex := nonemptyLines_content (h.listLine h') .index
  have harchive := nonemptyLines_content h'.archiveMap .archiveMap
  have hturns := foldlM_turns (W := W) h.turns
    ⟨doc.sessionId, doc.fullMeta, doc.rollupText, doc.indexLines, doc.archiveMapLines, []⟩
  have hmap : ((doc.pieces W).map fun p => (p.head, p.content)) =
      [(.fixed .metadata, (FixedSection.metadata.piece (doc.fullMeta.items.map metaText)).content),
        (.fixed .rollup, (FixedSection.rollup.piece [doc.rollupText]).content),
        (.fixed .index, (FixedSection.index.piece (linesOrNone doc.indexLines)).content),
        (.fixed .archiveMap, (FixedSection.archiveMap.piece (linesOrNone doc.archiveMapLines)).content)] ++
        doc.turns.map fun t => ((t.piece W).head, (t.piece W).content) := by
    rw [pieces, List.map_append, List.map_map]
    rfl
  rw [hmap, List.foldlM_append]
  simp only [List.foldlM_cons, List.foldlM_nil, readSection, hmeta, hrollup, hindex, harchive]
  exact hturns

theorem Described.unlines_parts (h : doc.Described W) :
    renderNew W doc = unlines (doc.parts W) ∧
      unlines (doc.parts W) ++ ['\n'] = doc.titleLine ++ '\n' :: '\n' :: unlines (piecesParts (doc.pieces W)) := by
  have hne : doc.parts W ≠ [] := List.cons_ne_nil _ _
  refine ⟨intercalate_append_newline hne, ?_⟩
  have hlast : unlines (doc.parts W) ++ ['\n'] = unlines (doc.parts W ++ [[]]) := by
    rw [unlines_append]
    rfl
  rw [hlast, parts_append W h.numbers, unlines_cons, unlines_cons]
  rfl

/-- **The document comes back.** -/
theorem Described.parseTranscript_eq (h : doc.Described W) (h' : doc.Readable W) :
    parseTranscript W (renderNew W doc) = .ok doc.withDefaults := by
  obtain ⟨hsingle, htitle, -, -⟩ := h.titleLine_spec
  have hlines : (renderNew W doc).splitOn '\n' = doc.titleLine :: ([] :: cut (piecesParts (doc.pieces W))) := by
    have hcut : cut (doc.parts W) ++ [[]] = cut (doc.parts W ++ [[]]) := by
      rw [cut_append]
      rfl
    have htitleCut : cut (doc.titleLine :: [] :: piecesParts (doc.pieces W)) =
        cut [doc.titleLine] ++ ([] :: cut (piecesParts (doc.pieces W))) := cut_append [doc.titleLine] _
    rw [h.unlines_parts.1, splitOn_unlines, ← cut, hcut, parts_append W h.numbers, htitleCut,
      cut_of_singleLine hsingle]
    rfl
  have hblank : iterSections W ⟨none, none, []⟩ ([] :: cut (piecesParts (doc.pieces W))) =
      iterSections W ⟨none, none, []⟩ (cut (piecesParts (doc.pieces W))) := rfl
  have hsections := iterSections_pieces (h.fits_pieces h') ⟨none, none, []⟩ rfl fun _ => rfl
  have hid : doc.withDefaults.sessionId.isEmpty = false := by
    rw [List.isEmpty_eq_false_iff]
    exact h.sessionId.2
  rw [parseTranscript, hlines]
  simp only [htitle, hblank, hsections]
  rw [show (⟨none, none, []⟩ : Scan).flush = [] from rfl, List.nil_append, h.foldlM_pieces h']
  simp only [hid, Bool.false_eq_true, if_false]

/-- **The headings of the text are the outline.** -/
theorem Described.headings_eq (h : doc.Described W) (h' : doc.Readable W) :
    (parseSections W (renderNew W doc)).tail.map (fun s => (s.level, s.heading)) = doc.outline := by
  obtain ⟨hsingle, -, hfence, hheading⟩ := h.titleLine_spec
  have hblankLine : headings W none (splitlines (renderNew W doc)) =
      headings W none (splitlines (unlines (doc.parts W) ++ ['\n'])) := by
    rw [← h.unlines_parts.1, renderNew, List.append_assoc]
    exact (headings_append_newline W _).symm
  have hblank : headings W none (splitlines ('\n' :: unlines (piecesParts (doc.pieces W)))) =
      headings W none (splitlines (unlines (piecesParts (doc.pieces W)))) := quiet_nil.passed.silent _
  have hturns : (doc.turns.map (Turn.piece W)).filterMap (fun p => atxHeading p.heading) =
      doc.turns.map fun t => (2, t.title) := by
    rw [List.filterMap_map, ← List.filterMap_eq_map]
    refine List.filterMap_congr fun t ht => ?_
    exact (h.turns t ht).atxHeading_eq
  have hfixed : ∀ (name : FixedSection) (parts : List (List Char)),
      atxHeading (name.piece parts).heading = some (2, name.name) := fun name _ => name.heading_spec.2.2
  rw [parseSections_tail, hblankLine, h.unlines_parts.2, splitlines_singleLine_newline hsingle,
    headings_line hsingle hfence, hheading, hblank, headings_pieces (h.fits_pieces h'), pieces, List.filterMap_append,
    hturns]
  simp only [List.filterMap_cons, List.filterMap_nil, hfixed]
  rfl

end SessionDoc

/-- **The round trip**: what is written of a document is read back, with the defaults of its meta; it is written so
again, and its headings are the title, the fixed sections and the turns, whatever the bodies contain. -/
theorem round_trip (W : WordClass) (doc : SessionDoc) (h : doc.Described W) (h' : doc.Readable W) :
    ∃ text, renderTranscript W doc none = .ok text ∧ parseTranscript W text = .ok doc.withDefaults ∧
      renderTranscript W doc.withDefaults none = .ok text ∧
      (parseSections W text).tail.map (fun s => (s.level, s.heading)) = doc.outline := by
  have hagain : renderNew W doc.withDefaults = renderNew W doc := by
    have hparts : doc.withDefaults.parts W = doc.parts W := by
      rw [SessionDoc.parts, doc.fullMeta_withDefaults]
      rfl
    rw [renderNew, hparts]
    rfl
  exact ⟨renderNew W doc, rfl, h.parseTranscript_eq h', congrArg Except.ok hagain, h.headings_eq h'⟩

/-! ## Documents -/

/-- A body with a heading, a fence of either kind and a carriage return. -/
def hostileBody : List Char := "## Turn 0009 — user\n\n```text\r~~~~\n~~~".toList

/-- A session of one turn. -/
def hostileSession : SessionDoc :=
  ⟨"s-1".toList, ∅, [], ["one".toList], [], [⟨7, "user".toList, hostileBody, some "rg".toList⟩]⟩

theorem plain_sessionId (W : WordClass) : Plain W "s-1".toList :=
  plain_of_cons (c := 's') (s := "-1".toList) (by rw [Stripped]; decide) (by decide)
    (by decide) (by decide) (by decide)

theorem plain_nil (W : WordClass) : Plain W [] := ⟨Stripped.nil, (quiet_nil (W := W)).single, quiet_nil.not_fence, rfl⟩

theorem round_trip_hostile :
    ∃ text, renderTranscript asciiWords hostileSession none = .ok text ∧
      parseTranscript asciiWords text = .ok hostileSession.withDefaults ∧
      renderTranscript asciiWords hostileSession.withDefaults none = .ok text ∧
      (parseSections asciiWords text).tail.map (fun s => (s.level, s.heading)) = hostileSession.outline := by
  have hline : Plain asciiWords "one".toList :=
    plain_of_cons (c := 'o') (s := "ne".toList) (by rw [Stripped]; decide) (by decide)
      (by decide) (by decide) (by decide)
  refine round_trip asciiWords hostileSession
    { sessionId := ⟨plain_sessionId _, by decide⟩
      metadata := fun e he => (by cases he)
      rollup := plain_nil _
      index := fun s hs => (List.mem_singleton.1 hs) ▸ ⟨hline, by decide⟩
      numbers := List.pairwise_singleton ..
      turns := fun t ht => (List.mem_singleton.1 ht) ▸ ⟨by decide, by decide, .inl rfl, fun tools htools => ?_⟩ }
    { keys := fun e he => (by cases he)
      index := by decide
      archiveMap := fun s hs => (by cases hs) }
  cases htools
  rw [Stripped]
  decide

/-- A session without turns. -/
def bareSession (metadata : Dict (List Char) (List Char)) (index archiveMap : List (List Char)) : SessionDoc :=
  ⟨"s-1".toList, metadata, [], index, archiveMap, []⟩

/-- The key has a colon. -/
def colonSession : SessionDoc := bareSession ((∅ : Dict (List Char) (List Char)).set "a:b".toList "c".toList) [] []

/-- The line says that there are no lines. -/
def noneSession : SessionDoc := bareSession ∅ [noneLine] []

/-- The line of the archive map is a heading. -/
def headingSession : SessionDoc := bareSession ∅ [] ["## x".toList]

/-- Plain text that the format cannot say does not come back. -/
theorem round_trip_needs_readable :
    (colonSession.Described asciiWords ∧
      parseTranscript asciiWords (renderNew asciiWords colonSession) ≠ .ok colonSession.withDefaults) ∧
    (noneSession.Described asciiWords ∧
      parseTranscript asciiWords (renderNew asciiWords noneSession) ≠ .ok noneSession.withDefaults) ∧
    headingSession.Described asciiWords ∧
      parseTranscript asciiWords (renderNew asciiWords headingSession) ≠ .ok headingSession.withDefaults := by
  have hkey : ∀ e ∈ colonSession.metadata.items, Plain asciiWords e.1 ∧ Plain asciiWords e.2 := by
    intro e he
    rw [List.mem_singleton.1 he]
    exact ⟨plain_of_cons (c := 'a') (s := ":b".toList) (by rw [Stripped]; decide) (by decide)
        (by decide) (by decide) (by decide),
      plain_of_cons (c := 'c') (s := []) (by rw [Stripped]; decide) (by decide)
        (by decide) (by decide) (by decide)⟩
  have hnone : Plain asciiWords noneLine :=
    plain_of_cons (c := '(') (s := "none)".toList) (by rw [Stripped]; decide) (by decide)
      (by decide) (by decide) (by decide)
  have hdescribed : ∀ metadata index archiveMap, (∀ e ∈ metadata.items, Plain asciiWords e.1 ∧ Plain asciiWords e.2) →
      (∀ s ∈ index, Plain asciiWords s ∧ s ≠ []) → (bareSession metadata index archiveMap).Described asciiWords :=
    fun metadata index archiveMap hmeta hindex =>
      ⟨⟨plain_sessionId _, List.cons_ne_nil 's' _⟩, hmeta, plain_nil _, hindex, List.Pairwise.nil, fun t ht => (by cases ht)⟩
  refine ⟨⟨hdescribed _ _ _ hkey fun s hs => (by cases hs), fun h => ?_⟩,
    ⟨hdescribed _ _ _ (fun e he => (by cases he)) fun s hs => (List.mem_singleton.1 hs) ▸ ⟨hnone, by decide⟩, fun h => ?_⟩,
    hdescribed _ _ _ (fun e he => (by cases he)) (fun s hs => (by cases hs)), fun h => ?_⟩
  · have hitems := congrArg (fun r => r.toOption.map fun doc => doc.metadata.items) h
    revert hitems
    decide
  · have hindex := congrArg (fun r => r.toOption.map SessionDoc.indexLines) h
    revert hindex
    decide
  · have harchive := congrArg (fun r => r.toOption.map SessionDoc.archiveMapLines) h
    revert harchive
    decide

end LlmGateway.SessionStore
