import LlmGateway.Foundations.Lines
import LlmGateway.Sse.Stream

/-!
# The two parsers of events

`parse_sse_message` reads a text whose ends it strips, and takes a field from a line that begins with `name: `;
`_parse_event` takes the space to be optional and a line without a colon to be a field, too. Data that is the text of a
JSON object becomes the object with the one, and stays a text with the other (`readData`).

The two give the same message, but for that, on a block without white space at its ends, newlines apart, whose fields
have the space (`Alike`). What `format_sse_message` writes is such a block when the data ends in a character that is not
white space, and then the message is read back (`parseSseMessage_spec`).

`json.loads` is a parameter: it gives a value, raises `JSONDecodeError`, or raises another exception, as it does on
integers of too many digits.
-/

namespace LlmGateway.Sse

/-- What comes of `json.loads`. -/
inductive Loaded where
  | value (j : Json)
  | decodeError
  | raised

/-- The exceptions of `parse_sse_message`. -/
inductive ParseError where
  /-- `SSE message missing data field` -/
  | missingData
  | nonIntegerRetry (value : List Char)
  | loads

/-! ## Reading -/

/-- One line. -/
def parseSseLine (f : Fields) (line : List Char) : Except ParseError Fields :=
  if "event: ".toList <+: line then .ok { f with event := some (line.drop 7) }
  else if "data: ".toList <+: line then .ok { f with dataLines := f.dataLines ++ [line.drop 6] }
  else if "id: ".toList <+: line then .ok { f with msgId := some (line.drop 4) }
  else if "retry: ".toList <+: line then
    match Decimal.ofText (line.drop 7) with
    | some n => .ok { f with retry := some n }
    | none => .error (.nonIntegerRetry (line.drop 7))
  else .ok f

section

variable (loads : List Char → Loaded)

/-- The data, decoded when it is a JSON object. -/
def decodeData (data : List Char) : Except ParseError JsonData :=
  match loads data with
  | .value (.obj items) => .ok (.dict items)
  | .value _ => .ok (.text data)
  | .decodeError => .ok (.text data)
  | .raised => .error .loads

def parseSseMessage (raw : List Char) : Except ParseError SSEMessage := do
  let f ← ((Text.strip raw).splitOn '\n').foldlM parseSseLine {}
  if f.dataLines = [] then .error .missingData
  else do
    let data ← decodeData loads (['\n'].intercalate f.dataLines)
    return { data, event := f.event, id := f.msgId, retry := f.retry }

/-- A message with its data decoded. -/
def readData (m : SSEMessage) : Option SSEMessage :=
  match m.data with
  | .text s => (decodeData loads s).toOption.map fun data => { m with data }
  | .dict _ => some m

end

/-! ## Lines that are read alike -/

def fieldNames : List (List Char) := ["event".toList, "data".toList, "id".toList, "retry".toList]

/-- A field has a colon and a space behind its name. -/
def ReadAlike (line : List Char) : Prop :=
  ∀ name ∈ fieldNames, (splitField line).1 = name → name ++ ": ".toList <+: line

/-- A block without white space at its ends, newlines apart, whose fields have the space. -/
def Alike (block : List Char) : Prop :=
  ∃ j k body, block = List.replicate j '\n' ++ body ++ List.replicate k '\n' ∧ Text.Stripped body ∧
    ∀ line ∈ body.splitOn '\n', ReadAlike line

section

variable (f : Fields) (value : List Char)

theorem parseSseLine_event : parseSseLine f ("event: ".toList ++ value) =
    .ok { f with event := some value } := by
  rw [parseSseLine, if_pos (List.prefix_append "event: ".toList value)]
  rfl

theorem parseSseLine_data : parseSseLine f ("data: ".toList ++ value) =
    .ok { f with dataLines := f.dataLines ++ [value] } := by
  rw [parseSseLine, if_neg (by simp), if_pos (List.prefix_append "data: ".toList value)]
  rfl

theorem parseSseLine_id : parseSseLine f ("id: ".toList ++ value) =
    .ok { f with msgId := some value } := by
  rw [parseSseLine, if_neg (by simp), if_neg (by simp), if_pos (List.prefix_append "id: ".toList value)]
  rfl

theorem parseSseLine_retry : parseSseLine f ("retry: ".toList ++ value) =
    match Decimal.ofText value with
    | some n => .ok { f with retry := some n }
    | none => .error (.nonIntegerRetry value) := by
  rw [parseSseLine, if_neg (by simp), if_neg (by simp), if_neg (by simp),
    if_pos (List.prefix_append "retry: ".toList value)]
  rfl

theorem parseSseLine_other {line : List Char} (h : ∀ name ∈ fieldNames, ¬name ++ ": ".toList <+: line) :
    parseSseLine f line = .ok f :=
  (if_neg (h "event".toList (by decide))).trans ((if_neg (h "data".toList (by decide))).trans
    ((if_neg (h "id".toList (by decide))).trans (if_neg (h "retry".toList (by decide)))))

theorem parseLine_retry_eq : parseLine f ("retry: ".toList ++ value) =
    match Decimal.ofText value with
    | some n => .ok { f with retry := some n }
    | none => .error (.nonIntegerRetry value) := by
  cases hvalue : Decimal.ofText value with
  | some n => exact parseLine_retry f value hvalue
  | none =>
    have hsplit := splitField_of_colon "retry".toList (by decide) value
    simp at hsplit
    simp [parseLine, hsplit, hvalue]

theorem parseLine_other {line : List Char} (h : (splitField line).1 ∉ fieldNames) : parseLine f line = .ok f := by
  rw [parseLine]
  split_ifs
  · rfl
  · simp only [fieldNames, List.mem_cons, List.not_mem_nil, or_false, not_or] at h
    simp only [if_neg h.1, if_neg h.2.1, if_neg h.2.2.1, if_neg h.2.2.2]

end

variable {line name : List Char}

theorem toOption_parseSseLine (h : ReadAlike line) (f : Fields) :
    (parseSseLine f line).toOption = (parseLine f line).toOption := by
  by_cases hfield : ∃ name ∈ fieldNames, name ++ ": ".toList <+: line
  · obtain ⟨name, hname, value, rfl⟩ := hfield
    simp only [fieldNames, List.mem_cons, List.not_mem_nil, or_false] at hname
    obtain rfl | rfl | rfl | rfl := hname
    · exact (congrArg Except.toOption (parseSseLine_event f value)).trans
        (congrArg Except.toOption (parseLine_event f value)).symm
    · exact (congrArg Except.toOption (parseSseLine_data f value)).trans
        (congrArg Except.toOption (parseLine_data f value)).symm
    · exact (congrArg Except.toOption (parseSseLine_id f value)).trans
        (congrArg Except.toOption (parseLine_id f value)).symm
    · refine (congrArg Except.toOption (parseSseLine_retry f value)).trans
        (Eq.trans ?_ (congrArg Except.toOption (parseLine_retry_eq f value)).symm)
      cases Decimal.ofText value with
      | some n => rfl
      | none => rfl
  · simp only [not_exists, not_and] at hfield
    rw [parseSseLine_other f hfield, parseLine_other f fun hname => hfield _ hname (h _ hname rfl)]
    rfl

/-! ## Blocks -/

theorem toOption_foldlM {ε ε' σ α : Type} {g : σ → α → Except ε σ} {h : σ → α → Except ε' σ} {l : List α}
    (heq : ∀ a ∈ l, ∀ f, (g f a).toOption = (h f a).toOption) (f : σ) :
    (l.foldlM g f).toOption = (l.foldlM h f).toOption := by
  induction l generalizing f with
  | nil => rfl
  | cons a l ih =>
    rw [List.foldlM_cons, List.foldlM_cons, toOption_bind, toOption_bind, heq a List.mem_cons_self f]
    exact Option.bind_congr fun f' _ => ih (fun b hb => heq b (List.mem_cons_of_mem a hb)) f'

variable {block body : List Char} {j k : ℕ}

theorem foldlM_replicate_nil (k : ℕ) (f : Fields) : (List.replicate k []).foldlM parseLine f = .ok f := by
  induction k with
  | zero => rfl
  | succ k ih => rw [List.replicate_succ, List.foldlM_cons, parseLine, if_pos (.inl rfl), ok_bind, ih]

theorem splitOn_replicate (k : ℕ) : (List.replicate k '\n').splitOn '\n' = List.replicate (k + 1) [] := by
  induction k with
  | zero => rfl
  | succ k ih =>
    have hcons := List.splitOn_append_cons_self [] (List.replicate k '\n') (a := '\n')
    rw [List.nil_append, List.splitOn_nil, ih] at hcons
    exact hcons

theorem strip_replicate_append (j k : ℕ) (body : List Char) :
    Text.strip (List.replicate j '\n' ++ body ++ List.replicate k '\n') = Text.strip body := by
  induction k with
  | zero =>
    rw [List.replicate_zero, List.append_nil]
    induction j with
    | zero => rfl
    | succ j ih => rw [List.replicate_succ, List.cons_append, Text.strip_cons_of_isSpace (by decide), ih]
  | succ k ih =>
    rw [List.replicate_succ', ← List.append_assoc, ← Text.strip_rstrip, Text.rstrip_append_single, if_pos (by decide),
      Text.strip_rstrip, ih]

theorem foldlM_block (j k : ℕ) (body : List Char) :
    ((List.replicate j '\n' ++ body ++ List.replicate k '\n').splitOn '\n').foldlM parseLine {} =
      (body.splitOn '\n').foldlM parseLine {} := by
  have hbehind : ((body ++ List.replicate k '\n').splitOn '\n').foldlM parseLine {} =
      (body.splitOn '\n').foldlM parseLine {} := by
    cases k with
    | zero => rw [List.replicate_zero, List.append_nil]
    | succ k =>
      rw [List.replicate_succ, List.splitOn_append_cons_self, splitOn_replicate, List.foldlM_append]
      refine (bind_congr fun f => foldlM_replicate_nil (k + 1) f).trans ?_
      exact bind_pure _
  induction j with
  | zero => exact hbehind
  | succ j ih =>
    have hcons := List.splitOn_append_cons_self [] (List.replicate j '\n' ++ body ++ List.replicate k '\n') (a := '\n')
    rw [List.nil_append, List.splitOn_nil] at hcons
    rw [List.replicate_succ, List.cons_append, List.cons_append, hcons, List.singleton_append, List.foldlM_cons,
      parseLine, if_pos (.inl rfl), ok_bind, ih]

/-- **Blocks.** On a block that is read alike the one parser gives the message of the other, with its data decoded. -/
theorem toOption_parseSseMessage (loads : List Char → Loaded) (h : Alike block) :
    (parseSseMessage loads block).toOption =
      (parseEvent (Utf8.encode block)).toOption.join.bind (readData loads) := by
  obtain ⟨j, k, body, rfl, hbody, hlines⟩ := h
  have hfold := toOption_foldlM (fun line hline f => toOption_parseSseLine (hlines line hline) f) {}
  rw [parseSseMessage, parseEvent, Utf8.decode_encode, strip_replicate_append, hbody, foldlM_block, toOption_bind,
    toOption_bind, hfold]
  cases ((body.splitOn '\n').foldlM parseLine {}).toOption with
  | none => rfl
  | some f =>
    by_cases hdata : f.dataLines = []
    · simp only [Option.bind_some, if_pos hdata, Fields.message]
      rfl
    · simp only [Option.bind_some, if_neg hdata, Fields.message, toOption_bind]
      change _ = ((decodeData loads (['\n'].intercalate f.dataLines)).toOption.map _)
      cases (decodeData loads (['\n'].intercalate f.dataLines)).toOption with
      | none => rfl
      | some data => rfl

/-! ## Formatted messages -/

/-- The optional fields can be told from absent ones, and stay on their lines. -/
def SSEMessage.Plain (m : SSEMessage) : Prop :=
  (∀ e, m.event = some e → e ≠ [] ∧ '\n' ∉ e) ∧ ∀ i, m.id = some i → i ≠ [] ∧ '\n' ∉ i

/-- The text ends in a character that is not white space. -/
def EndsVisibly (s : List Char) : Prop := ∃ c ∈ s.getLast?, Json.isSpace c = false

theorem readAlike_of_prefix (hname : ':' ∉ name) (h : name ++ ": ".toList <+: line) :
    ReadAlike line := by
  obtain ⟨value, rfl⟩ := h
  intro other _ heq
  have hsplit := splitField_of_colon name hname value
  have hsame : (splitField (name ++ ": ".toList ++ value)).1 = name := by
    rw [List.append_assoc]
    exact congrArg Prod.fst hsplit
  rw [← heq, hsame]
  exact List.prefix_append _ _

theorem stripped_of_ends {c d : Char} {s t : List Char} (hc : Json.isSpace c = false) (hd : Json.isSpace d = false)
    (h : c :: s = t ++ [d]) : Text.Stripped (c :: s) := by
  rw [Text.Stripped, Text.strip_cons_of_not_isSpace hc, h, Text.rstrip_append_single, if_neg (by simp [hd])]

theorem EndsVisibly.last {s : List Char} (h : EndsVisibly s) :
    ∃ init last d, s.splitOn '\n' = init ++ [last ++ [d]] ∧ Json.isSpace d = false := by
  obtain ⟨d, hlast, hd⟩ := h
  obtain ⟨init, last, hsplit⟩ := (List.eq_nil_or_concat' (s.splitOn '\n')).resolve_left (List.splitOn_ne_nil '\n' s)
  have hs : s = Text.unlines init ++ last := by
    have hjoin := Text.intercalate_append_newline (List.splitOn_ne_nil '\n' s)
    rw [List.intercalate_splitOn, hsplit, Text.unlines_append, Text.unlines_cons] at hjoin
    refine List.append_cancel_right (hjoin.trans ?_)
    rw [List.append_assoc]
    rfl
  obtain rfl | ⟨last, e, rfl⟩ := List.eq_nil_or_concat' last
  · -- The text would end with a newline.
    exfalso
    rw [hs, List.append_nil] at hlast
    obtain rfl | ⟨init, line, rfl⟩ := List.eq_nil_or_concat' init
    · cases hlast
    · rw [Text.unlines_append, Text.unlines_cons, show Text.unlines [] = [] from rfl, ← List.append_assoc,
        List.getLast?_append_cons] at hlast
      cases hlast
      cases hd
  · rw [hs, ← List.append_assoc, List.getLast?_append_cons] at hlast
    cases hlast
    exact ⟨init, last, _, hsplit, hd⟩

variable {m : SSEMessage} {s text : List Char} {rs : List (List Char)}

theorem prefix_of_mem_lines (hretry : retryLines m.retry = some rs) :
    ∀ l ∈ textLines "event" m.event ++ textLines "id" m.id ++ rs ++ dataLines (.text s),
      ∃ name ∈ fieldNames, name ++ ": ".toList <+: l := by
  have htext : ∀ {name : String} {v : Option (List Char)}, ∀ l ∈ textLines name v, name.toList ++ ": ".toList <+: l := by
    intro name v l hl
    obtain _ | v := v
    · cases hl
    · rw [textLines] at hl
      split_ifs at hl
      · cases hl
      · obtain rfl := List.mem_singleton.1 hl
        exact List.prefix_append _ _
  simp only [List.mem_append]
  rintro l (((hl | hl) | hl) | hl)
  · exact ⟨_, by decide, htext l hl⟩
  · exact ⟨_, by decide, htext l hl⟩
  · obtain hnone | ⟨n, hn⟩ := Option.eq_none_or_eq_some m.retry
    · rw [hnone] at hretry
      cases hretry
      cases hl
    · rw [hn] at hretry
      obtain ⟨v, -, rfl⟩ := Option.map_eq_some_iff.1 hretry
      obtain rfl := List.mem_singleton.1 hl
      exact ⟨"retry".toList, by decide, List.prefix_append "retry: ".toList v⟩
  · obtain ⟨v, -, rfl⟩ := List.mem_map.1 hl
    exact ⟨"data".toList, by decide, List.prefix_append "data: ".toList v⟩

theorem colon_not_mem (h : name ∈ fieldNames) : ':' ∉ name := by
  simp only [fieldNames, List.mem_cons, List.not_mem_nil, or_false] at h
  obtain rfl | rfl | rfl | rfl := h <;> decide

theorem exists_cons_of_prefix (hname : name ∈ fieldNames) (h : name ++ ": ".toList <+: line) :
    ∃ c t, line = c :: t ∧ Json.isSpace c = false := by
  obtain ⟨value, rfl⟩ := h
  simp only [fieldNames, List.mem_cons, List.not_mem_nil, or_false] at hname
  obtain rfl | rfl | rfl | rfl := hname
  · exact ⟨'e', _, rfl, by decide⟩
  · exact ⟨'d', _, rfl, by decide⟩
  · exact ⟨'i', _, rfl, by decide⟩
  · exact ⟨'r', _, rfl, by decide⟩

theorem stripped_lines {front : List (List Char)} (hend : EndsVisibly s)
    (hfields : ∀ l ∈ front ++ dataLines (.text s), ∃ name ∈ fieldNames, name ++ ": ".toList <+: l) :
    Text.Stripped (['\n'].intercalate (front ++ dataLines (.text s))) := by
  obtain ⟨init, last, d, hsplit, hd⟩ := hend.last
  have hdatalines : dataLines (.text s) = init.map ("data: ".toList ++ ·) ++ ["data: ".toList ++ last ++ [d]] := by
    rw [dataLines, hsplit, List.map_append, List.map_singleton, List.append_assoc]
  have hne : front ++ dataLines (.text s) ≠ [] := by
    rw [hdatalines]
    simp
  have hlast : ['\n'].intercalate (front ++ dataLines (.text s)) =
      Text.unlines (front ++ init.map ("data: ".toList ++ ·)) ++ ("data: ".toList ++ last) ++ [d] := by
    have hjoin := Text.intercalate_append_newline hne
    refine List.append_cancel_right (hjoin.trans ?_)
    rw [hdatalines, ← List.append_assoc, Text.unlines_append, Text.unlines_cons]
    simp [Text.unlines]
  obtain ⟨l, ls, hcons⟩ := List.exists_cons_of_ne_nil hne
  obtain ⟨name, hname, hl⟩ := hfields l (hcons ▸ List.mem_cons_self)
  obtain ⟨c, t, rfl, hc⟩ := exists_cons_of_prefix hname hl
  have hfirst : ∃ u, ['\n'].intercalate (front ++ dataLines (.text s)) = c :: u := by
    rw [hcons]
    cases ls with
    | nil => exact ⟨t, by simp⟩
    | cons l' ls => exact ⟨_, by rw [List.intercalate_cons_cons, List.append_assoc, List.cons_append]⟩
  obtain ⟨u, hu⟩ := hfirst
  rw [hu] at hlast ⊢
  exact stripped_of_ends hc hd hlast

theorem alike_format (hdata : m.data = .text s) (hplain : m.Plain) (hend : EndsVisibly s)
    (hfmt : formatSseMessage m = some text) : Alike text ∧ parseEvent (Utf8.encode text) = .ok (some m) := by
  obtain ⟨rs, hrs, rfl⟩ := Option.map_eq_some_iff.mp hfmt
  have hprefix := prefix_of_mem_lines (s := s) hrs
  have hline := isLine_lines s (fun e he => (hplain.1 e he).2) (fun i hi => (hplain.2 i hi).2) hrs
  have hfold := foldlM_lines s (fun h => (hplain.1 [] h).1 rfl) (fun h => (hplain.2 [] h).1 rfl) hrs
  have hstripped := stripped_lines hend hprefix
  have hne : textLines "event" m.event ++ textLines "id" m.id ++ rs ++ dataLines (.text s) ≠ [] := by
    intro hnil
    have hdatanil := (List.append_eq_nil_iff.1 hnil).2
    exact List.splitOn_ne_nil '\n' s (List.map_eq_nil_iff.1 hdatanil)
  rw [hdata]
  generalize textLines "event" m.event ++ textLines "id" m.id ++ rs ++ dataLines (.text s) = ls at *
  have hsplit := List.splitOn_intercalate '\n' (fun l hl => (hline l hl).2) hne
  refine ⟨⟨0, 2, ['\n'].intercalate ls, rfl, hstripped, fun line hmem => ?_⟩, ?_⟩
  · rw [hsplit] at hmem
    obtain ⟨name, hname, hl⟩ := hprefix line hmem
    exact readAlike_of_prefix (colon_not_mem hname) hl
  · have hblock := foldlM_block 0 2 (['\n'].intercalate ls)
    rw [hsplit, hfold] at hblock
    have hwhole : ((['\n'].intercalate ls ++ "\n\n".toList).splitOn '\n').foldlM parseLine {} = .ok
      { event := m.event, dataLines := s.splitOn '\n', msgId := m.id, retry := m.retry } := hblock
    rw [parseEvent, Utf8.decode_encode, hwhole, ok_bind, Fields.message, if_neg (List.splitOn_ne_nil '\n' s),
      List.intercalate_splitOn, ← hdata]
    rfl

/-- **The two parsers.** A message whose data is a text that ends visibly is read back from what it is formatted to, with
its data decoded when it is a JSON object; and any block that is read alike is read so as the message that the other parser
gives. -/
theorem parseSseMessage_spec (loads : List Char → Loaded) :
    (∀ (m : SSEMessage) (s text : List Char), m.data = .text s → m.Plain → EndsVisibly s →
      formatSseMessage m = some text → (parseSseMessage loads text).toOption = readData loads m) ∧
    ∀ block, Alike block → (parseSseMessage loads block).toOption =
      (parseEvent (Utf8.encode block)).toOption.join.bind (readData loads) := by
  refine ⟨fun m s text hdata hplain hend hfmt => ?_, fun block h => toOption_parseSseMessage loads h⟩
  obtain ⟨halike, hevent⟩ := alike_format hdata hplain hend hfmt
  rw [toOption_parseSseMessage loads halike, hevent]
  rfl

/-- A decoder for one object. -/
def loadsSample (s : List Char) : Loaded :=
  if s = "\x7b\"a\":1\x7d".toList then .value (.obj [("a", .int 1)]) else .decodeError

theorem parseSseMessage_log :
    (parseSseMessage loadsSample "event: log\ndata: Hello\n\n".toList).toOption =
        some { data := .text "Hello".toList, event := some "log".toList } ∧
      (parseSseMessage loadsSample "data: Hello".toList).toOption =
        (parseEvent (Utf8.encode "data: Hello".toList)).toOption.join.bind (readData loadsSample) := by
  refine ⟨(parseSseMessage_spec loadsSample).1 { data := .text "Hello".toList, event := some "log".toList }
    "Hello".toList _ rfl ⟨?_, nofun⟩ ⟨'o', rfl, by decide⟩ rfl, (parseSseMessage_spec loadsSample).2 _
      ⟨0, 0, "data: Hello".toList, rfl, rfl, fun line hmem => ?_⟩⟩
  · rintro e he
    obtain rfl := Option.some.inj he
    decide
  · obtain rfl : line = "data: Hello".toList := List.mem_singleton.1 hmem
    exact readAlike_of_prefix (colon_not_mem (by decide : "data".toList ∈ fieldNames))
      (List.prefix_append "data: ".toList "Hello".toList)

/-- The text of a JSON object is read back as the object, while the other parser gives the text. -/
theorem parseSseMessage_object :
    formatSseMessage { data := .text "\x7b\"a\":1\x7d".toList } = some "data: \x7b\"a\":1\x7d\n\n".toList ∧
      parseSseMessage loadsSample "data: \x7b\"a\":1\x7d\n\n".toList = .ok { data := .dict [("a", .int 1)] } ∧
      parseSseMessage loadsSample "data: \x7b\"a\":1\x7d".toList = .ok { data := .dict [("a", .int 1)] } ∧
      parseEvent (Utf8.encode "data: \x7b\"a\":1\x7d".toList) = .ok (some { data := .text "\x7b\"a\":1\x7d".toList }) := by
  refine ⟨rfl, rfl, rfl, ?_⟩
  rw [parseEvent, Utf8.decode_encode]
  rfl

end LlmGateway.Sse
