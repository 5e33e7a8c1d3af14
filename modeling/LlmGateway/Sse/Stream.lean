import LlmGateway.Sse.Framing
import LlmGateway.Foundations.Fallible

/-!
# Streams of events

What `iter_sse_events` yields depends on the bytes of the stream alone: it dispatches the events that
`framing` cuts the stream into, with what is left at the end as a last one (`iterSseEvents_eq`). A stream
of formatted messages is cut at the ends of the messages, since no line of a message is empty
(`cutEvent_join`), and the lines of every message are read back as its fields (`parseEvent_lines`).
-/

namespace LlmGateway.Sse

/-! ## Independence of the chunks -/

/-- Dispatch events one after the other, up to the first one that does not parse. -/
def dispatch : List (List UInt8) → List SSEMessage × Option SSEParseError
  | [] => ([], none)
  | raw :: raws =>
    match readEvent raw with
    | .error e => ([], some e)
    | .ok none => dispatch raws
    | .ok (some m) => (m :: (dispatch raws).1, (dispatch raws).2)

section

variable {raw : List UInt8} {raws : List (List UInt8)}

theorem dispatch_cons_error {e : SSEParseError} (h : readEvent raw = .error e) :
    dispatch (raw :: raws) = ([], some e) := by
  rw [dispatch, h]

theorem dispatch_cons_none (h : readEvent raw = .ok none) : dispatch (raw :: raws) = dispatch raws := by
  rw [dispatch, h]

theorem dispatch_cons_some {m : SSEMessage} (h : readEvent raw = .ok (some m)) :
    dispatch (raw :: raws) = (m :: (dispatch raws).1, (dispatch raws).2) := by
  rw [dispatch, h]

theorem dispatch_append_of_error {e : SSEParseError} (h : (dispatch raws).2 = some e)
    (raws' : List (List UInt8)) : dispatch (raws ++ raws') = dispatch raws := by
  induction raws with
  | nil => cases h
  | cons raw raws ih =>
    rw [List.cons_append]
    rcases hr : readEvent raw with e' | (_ | m)
    · rw [dispatch_cons_error hr, dispatch_cons_error hr]
    · rw [dispatch_cons_none hr] at h ⊢
      rw [dispatch_cons_none hr, ih h]
    · rw [dispatch_cons_some hr] at h ⊢
      rw [dispatch_cons_some hr, ih h]

theorem dispatch_append_of_none (h : (dispatch raws).2 = none) (raws' : List (List UInt8)) :
    dispatch (raws ++ raws') = ((dispatch raws).1 ++ (dispatch raws').1, (dispatch raws').2) := by
  induction raws with
  | nil => rfl
  | cons raw raws ih =>
    rw [List.cons_append]
    rcases hr : readEvent raw with e' | (_ | m)
    · rw [dispatch_cons_error hr] at h
      cases h
    · rw [dispatch_cons_none hr] at h ⊢
      rw [dispatch_cons_none hr, ih h]
    · rw [dispatch_cons_some hr] at h ⊢
      rw [dispatch_cons_some hr, ih h, List.cons_append]

end

theorem flush_eq (buffer : List UInt8) : flush buffer = dispatch [buffer] := by
  rcases hr : readEvent buffer with e' | (_ | m)
  · rw [flush, hr, dispatch_cons_error hr]
  · rw [flush, hr, dispatch_cons_none hr, dispatch]
  · rw [flush, hr, dispatch_cons_some hr, dispatch]

theorem drain_eq (b : List UInt8) :
    drain b = ((dispatch (framing.split b).1).1,
      (dispatch (framing.split b).1).2.elim (.ok (framing.split b).2) .error) := by
  induction b using framing.frameInduction with
  | none b hcut =>
    rw [drain, Framing.split_of_none hcut]
    split
    · rfl
    · next h => simp [hcut] at h
  | some b raw r hcut ih =>
    rw [drain, Framing.split_of_some hcut]
    split
    · next h => simp [hcut] at h
    · next raw' r' h =>
      rw [hcut, Option.some.injEq, Prod.mk.injEq] at h
      obtain ⟨rfl, rfl⟩ := h
      rcases hr : readEvent raw with e' | (_ | m)
      · rw [dispatch_cons_error hr]
        rfl
      · rw [dispatch_cons_none hr]
        exact ih
      · rw [dispatch_cons_some hr, ih]

theorem iterFrom_eq {b : List UInt8} (hb : framing.cut b = none) (chunks : List (List UInt8)) :
    iterFrom b chunks =
      dispatch ((framing.split (b ++ chunks.flatten)).1 ++ [(framing.split (b ++ chunks.flatten)).2]) := by
  induction chunks generalizing b with
  | nil => rw [iterFrom, flush_eq, List.flatten_nil, List.append_nil, Framing.split_of_none hb, List.nil_append]
  | cons c chunks ih =>
    rw [iterFrom, List.flatten_cons]
    split
    · next hc => rw [ih hb, hc, List.nil_append]
    · rw [drain_eq, ← List.append_assoc, framing.split_append (b ++ c)]
      cases he : (dispatch (framing.split (b ++ c)).1).2 with
      | some e =>
        rw [List.append_assoc, dispatch_append_of_error he]
        exact Prod.ext rfl he.symm
      | none =>
        rw [List.append_assoc, dispatch_append_of_none he, ← ih (framing.cut_split _)]
        rfl

theorem iterSseEvents_eq (chunks : List (List UInt8)) :
    iterSseEvents chunks =
      dispatch ((framing.split chunks.flatten).1 ++ [(framing.split chunks.flatten).2]) :=
  iterFrom_eq rfl chunks

/-! ## Where a formatted message ends -/

theorem cutEvent_append {l : List UInt8} (hl : 10 ∉ l) (s : List UInt8) :
    cutEvent (l ++ s) = (cutEvent s).map fun r => (l ++ r.1, r.2) := by
  induction l with
  | nil => simp
  | cons b l ih =>
    have hb : ¬ (b = 10 ∧ (l ++ s).head? = some 10) := fun h => hl (h.1 ▸ List.mem_cons_self)
    rw [List.cons_append, cutEvent, if_neg hb, ih fun h => hl (List.mem_cons_of_mem b h), Option.map_map]
    rfl

theorem cutEvent_join {ls : List (List UInt8)} (hls : ls ≠ []) (hl : ∀ l ∈ ls, l ≠ [] ∧ 10 ∉ l)
    (c : List UInt8) :
    cutEvent ([10].intercalate ls ++ (10 :: 10 :: c)) = some ([10].intercalate ls, c) := by
  induction ls with
  | nil => exact absurd rfl hls
  | cons l ls ih =>
    obtain ⟨⟨-, hnl⟩, hrest⟩ := List.forall_mem_cons.mp hl
    cases ls with
    | nil =>
      rw [List.intercalate_singleton, cutEvent_append hnl]
      simp [cutEvent]
    | cons l' ls =>
      have hnext := ih (List.cons_ne_nil l' ls) hrest
      -- the line behind the newline is not empty
      have hhead : ([10].intercalate (l' :: ls) ++ (10 :: 10 :: c)).head? ≠ some 10 := by
        obtain ⟨⟨hne, hnl'⟩, -⟩ := List.forall_mem_cons.mp hrest
        obtain ⟨b, l'', rfl⟩ := List.exists_cons_of_ne_nil hne
        cases ls <;>
        · simp only [List.intercalate_singleton, List.intercalate_cons_cons, List.cons_append, List.head?_cons]
          intro h
          exact hnl' (Option.some.inj h ▸ List.mem_cons_self)
      rw [List.intercalate_cons_cons, List.append_assoc, List.append_assoc, cutEvent_append hnl,
        List.singleton_append, cutEvent, if_neg fun h => hhead h.2, hnext]
      simp

/-! ## Reading a formatted message back -/

theorem splitField_of_colon (name : List Char) (hname : ':' ∉ name) (value : List Char) :
    splitField (name ++ ':' :: ' ' :: value) = (name, value) := by
  have hpass : ∀ c ∈ name, (c != ':') = true := by
    intro c hc
    rw [bne_iff_ne]
    rintro rfl
    exact hname hc
  have hdrop : (name ++ ':' :: ' ' :: value).dropWhile (· != ':') = ':' :: ' ' :: value := by
    rw [List.dropWhile_append_of_pos hpass]
    rfl
  have htake : (name ++ ':' :: ' ' :: value).takeWhile (· != ':') = name := by
    rw [List.takeWhile_append_of_pos hpass]
    exact List.append_nil name
  simp only [splitField, hdrop, htake, List.head?_cons, if_true, List.tail_cons]

section

variable (f : Fields) (value : List Char)

theorem parseLine_event :
    parseLine f ("event".toList ++ ": ".toList ++ value) = .ok { f with event := some value } := by
  have hsplit := splitField_of_colon "event".toList (by decide) value
  simp at hsplit
  simp [parseLine, hsplit]

theorem parseLine_id :
    parseLine f ("id".toList ++ ": ".toList ++ value) = .ok { f with msgId := some value } := by
  have hsplit := splitField_of_colon "id".toList (by decide) value
  simp at hsplit
  simp [parseLine, hsplit]

theorem parseLine_retry {n : ℤ} (hn : Decimal.ofText value = some n) :
    parseLine f ("retry: ".toList ++ value) = .ok { f with retry := some n } := by
  have hsplit := splitField_of_colon "retry".toList (by decide) value
  simp at hsplit
  simp [parseLine, hsplit, hn]

theorem parseLine_data :
    parseLine f ("data: ".toList ++ value) = .ok { f with dataLines := f.dataLines ++ [value] } := by
  have hsplit := splitField_of_colon "data".toList (by decide) value
  simp at hsplit
  simp [parseLine, hsplit]

end

theorem foldlM_event (f : Fields) (hf : f.event = none) {e : Option (List Char)} (he : e ≠ some []) :
    (textLines "event" e).foldlM parseLine f = .ok { f with event := e } := by
  obtain _ | s := e
  · rw [textLines, List.foldlM_nil, ← hf]
    rfl
  · have hs : s ≠ [] := fun h => he (h ▸ rfl)
    rw [textLines, if_neg hs, List.foldlM_cons, parseLine_event]
    rfl

theorem foldlM_id (f : Fields) (hf : f.msgId = none) {i : Option (List Char)} (hi : i ≠ some []) :
    (textLines "id" i).foldlM parseLine f = .ok { f with msgId := i } := by
  obtain _ | s := i
  · rw [textLines, List.foldlM_nil, ← hf]
    rfl
  · have hs : s ≠ [] := fun h => hi (h ▸ rfl)
    rw [textLines, if_neg hs, List.foldlM_cons, parseLine_id]
    rfl

theorem foldlM_retry (f : Fields) (hf : f.retry = none) {r : Option ℤ} {ls : List (List Char)}
    (hr : retryLines r = some ls) : ls.foldlM parseLine f = .ok { f with retry := r } := by
  obtain _ | n := r
  · obtain rfl := Option.some.inj hr
    rw [← hf]
    rfl
  · obtain ⟨s, hs, rfl⟩ := Option.map_eq_some_iff.mp hr
    rw [List.foldlM_cons, parseLine_retry f s (Decimal.ofText_toText hs)]
    rfl

theorem foldlM_data (f : Fields) (ls : List (List Char)) :
    (ls.map ("data: ".toList ++ ·)).foldlM parseLine f = .ok { f with dataLines := f.dataLines ++ ls } := by
  induction ls generalizing f with
  | nil =>
    rw [List.append_nil]
    rfl
  | cons l ls ih =>
    rw [List.map_cons, List.foldlM_cons, parseLine_data, ok_bind, ih, List.append_assoc, List.singleton_append]

theorem foldlM_lines {event id : Option (List Char)} {retry : Option ℤ} (s : List Char)
    {rs : List (List Char)} (hevent : event ≠ some []) (hid : id ≠ some []) (hretry : retryLines retry = some rs) :
    (textLines "event" event ++ textLines "id" id ++ rs ++ dataLines (.text s)).foldlM parseLine {} =
      .ok { event := event, dataLines := s.splitOn '\n', msgId := id, retry := retry } := by
  rw [List.foldlM_append, List.foldlM_append, List.foldlM_append, foldlM_event _ rfl hevent, ok_bind,
    foldlM_id _ rfl hid, ok_bind, foldlM_retry _ rfl hretry, ok_bind, dataLines, foldlM_data]
  rfl

/-! ## The lines of a formatted message -/

/-- A line that a stream of events keeps: not empty, and without a newline. -/
def IsLine (l : List Char) : Prop := l ≠ [] ∧ '\n' ∉ l

theorem newline_not_mem_splitOn {s l : List Char} (h : l ∈ s.splitOn '\n') : '\n' ∉ l := by
  induction s generalizing l with
  | nil =>
    rw [List.splitOn_nil, List.mem_singleton] at h
    rw [h]
    exact List.not_mem_nil
  | cons c s ih =>
    rw [List.splitOn_cons_eq_if_modifyHead] at h
    split at h
    · rcases List.mem_cons.mp h with rfl | h
      · exact List.not_mem_nil
      · exact ih h
    · next hc =>
      obtain ⟨l₀, ls, hls⟩ := List.exists_cons_of_ne_nil (List.splitOn_ne_nil '\n' s)
      rw [hls, List.modifyHead_cons] at h
      rw [hls] at ih
      rcases List.mem_cons.mp h with rfl | h
      · intro hmem
        rcases List.mem_cons.mp hmem with rfl | hmem
        · exact hc (by simp)
        · exact ih List.mem_cons_self hmem
      · exact ih (List.mem_cons_of_mem l₀ h)

theorem isLine_textLines {name : String} (hname : '\n' ∉ name.toList) {v : Option (List Char)}
    (hv : ∀ s, v = some s → '\n' ∉ s) : ∀ l ∈ textLines name v, IsLine l := by
  intro l hl
  obtain _ | s := v
  · exact absurd hl List.not_mem_nil
  · rw [textLines] at hl
    split at hl
    · exact absurd hl List.not_mem_nil
    · obtain rfl := List.mem_singleton.mp hl
      have hs := hv s rfl
      refine ⟨?_, ?_⟩
      · simp
      · simp [hname, hs]

theorem isLine_retryLines {r : Option ℤ} {rs : List (List Char)} (hr : retryLines r = some rs) :
    ∀ l ∈ rs, IsLine l := by
  intro l hl
  obtain _ | n := r
  · obtain rfl := Option.some.inj hr
    exact absurd hl List.not_mem_nil
  · obtain ⟨s, hs, rfl⟩ := Option.map_eq_some_iff.mp hr
    obtain rfl := List.mem_singleton.mp hl
    have hnl : '\n' ∉ s := by
      intro hmem
      exact absurd (Decimal.bounds_of_mem_toText hs hmem).1 (by decide)
    refine ⟨?_, ?_⟩
    · simp
    · simp [hnl]

theorem isLine_dataLines (s : List Char) : ∀ l ∈ dataLines (.text s), IsLine l := by
  intro l hl
  obtain ⟨l', hl', rfl⟩ := List.mem_map.mp hl
  have hnl := newline_not_mem_splitOn hl'
  refine ⟨?_, ?_⟩
  · simp
  · simp [hnl]

theorem isLine_lines {event id : Option (List Char)} {retry : Option ℤ} {rs : List (List Char)} (s : List Char)
    (hevent : ∀ e, event = some e → '\n' ∉ e) (hid : ∀ i, id = some i → '\n' ∉ i)
    (hretry : retryLines retry = some rs) :
    ∀ l ∈ textLines "event" event ++ textLines "id" id ++ rs ++ dataLines (.text s), IsLine l := by
  simp only [List.mem_append]
  rintro l (((hl | hl) | hl) | hl)
  · exact isLine_textLines (by decide) hevent l hl
  · exact isLine_textLines (by decide) hid l hl
  · exact isLine_retryLines hretry l hl
  · exact isLine_dataLines s l hl

/-! ## The round trip -/

theorem encode_intercalate (ls : List (List Char)) :
    Utf8.encode (['\n'].intercalate ls) = [10].intercalate (ls.map Utf8.encode) := by
  induction ls with
  | nil => rfl
  | cons l ls ih =>
    cases ls with
    | nil => simp
    | cons l' ls =>
      rw [List.intercalate_cons_cons, Utf8.encode_append, Utf8.encode_append, ih]
      simp only [List.map_cons, List.intercalate_cons_cons]
      rfl

theorem isBlank_intercalate (ls : List (List UInt8)) : isBlank ([10].intercalate ls) = ls.all isBlank := by
  induction ls with
  | nil => rfl
  | cons l ls ih =>
    cases ls with
    | nil => simp
    | cons l' ls =>
      have happ (a b : List UInt8) : isBlank (a ++ b) = (isBlank a && isBlank b) := List.all_append
      have hnl : isBlank [10] = true := rfl
      rw [List.intercalate_cons_cons, happ, happ, ih, hnl, Bool.and_true]
      rfl

theorem isBlank_data (l : List Char) : isBlank (Utf8.encode ("data: ".toList ++ l)) = false := by
  rw [Utf8.encode_append, isBlank, List.all_append]
  rfl

theorem readEvent_format {m : SSEMessage} {s text : List Char} (hdata : m.data = .text s)
    (hevent : ∀ e, m.event = some e → e ≠ [] ∧ '\n' ∉ e) (hid : ∀ i, m.id = some i → i ≠ [] ∧ '\n' ∉ i)
    (hfmt : formatSseMessage m = some text) :
    ∃ raw, Utf8.encode text = raw ++ [10, 10] ∧ readEvent raw = .ok (some m) ∧
      ∀ c, framing.cut (raw ++ [10, 10] ++ c) = some (raw, c) := by
  obtain ⟨rs, hrs, rfl⟩ := Option.map_eq_some_iff.mp hfmt
  rw [hdata]
  generalize hls : textLines "event" m.event ++ textLines "id" m.id ++ rs ++ dataLines (.text s) = ls
  have hline : ∀ l ∈ ls, IsLine l := by
    rw [← hls]
    exact isLine_lines s (fun e he => (hevent e he).2) (fun i hi => (hid i hi).2) hrs
  -- the first `data:` line; there always is one
  obtain ⟨l₀, ls₀, hl₀⟩ := List.exists_cons_of_ne_nil (List.splitOn_ne_nil '\n' s)
  have hmem : "data: ".toList ++ l₀ ∈ ls := by
    rw [← hls, dataLines, hl₀]
    exact List.mem_append_right _ List.mem_cons_self
  have hne : ls ≠ [] := List.ne_nil_of_mem hmem
  refine ⟨Utf8.encode (['\n'].intercalate ls), Utf8.encode_append _ _, ?_, ?_⟩
  · have hblank : isBlank (Utf8.encode (['\n'].intercalate ls)) = false := by
      rw [encode_intercalate, isBlank_intercalate, List.all_eq_false]
      exact ⟨_, List.mem_map_of_mem hmem, by rw [isBlank_data]; exact Bool.false_ne_true⟩
    have hfields : ls.foldlM parseLine {} =
        .ok { event := m.event, dataLines := s.splitOn '\n', msgId := m.id, retry := m.retry } := by
      rw [← hls]
      exact foldlM_lines s (fun h => (hevent [] h).1 rfl) (fun h => (hid [] h).1 rfl) hrs
    rw [readEvent, hblank, if_neg Bool.false_ne_true, parseEvent, Utf8.decode_encode,
      List.splitOn_intercalate '\n' (fun l hl => (hline l hl).2) hne, hfields, ok_bind, Fields.message,
      if_neg (List.splitOn_ne_nil '\n' s), List.intercalate_splitOn, ← hdata]
    rfl
  · intro c
    have hbytes : ∀ l ∈ ls.map Utf8.encode, l ≠ [] ∧ 10 ∉ l := by
      intro l hl
      obtain ⟨l', hl', rfl⟩ := List.mem_map.mp hl
      exact ⟨fun h => (hline l' hl').1 (Utf8.encode_eq_nil.mp h),
        fun h => (hline l' hl').2 ((Utf8.newline_mem_encode l').mp h)⟩
    rw [encode_intercalate, List.append_assoc]
    exact cutEvent_join (fun h => hne (List.map_eq_nil_iff.mp h)) hbytes c

theorem split_format {msgs : List SSEMessage} (hdata : ∀ m ∈ msgs, ∃ s, m.data = .text s)
    (hevent : ∀ m ∈ msgs, ∀ e, m.event = some e → e ≠ [] ∧ '\n' ∉ e)
    (hid : ∀ m ∈ msgs, ∀ i, m.id = some i → i ≠ [] ∧ '\n' ∉ i) {texts : List (List Char)}
    (hfmt : msgs.mapM formatSseMessage = some texts) :
    ∃ raws, framing.split (Utf8.encode texts.flatten) = (raws, []) ∧ dispatch raws = (msgs, none) := by
  induction msgs generalizing texts with
  | nil =>
    obtain rfl := Option.some.inj hfmt
    exact ⟨[], Framing.split_of_none rfl, rfl⟩
  | cons m msgs ih =>
    rw [List.mapM_cons] at hfmt
    obtain ⟨text, htext, hfmt⟩ := Option.bind_eq_some_iff.mp hfmt
    obtain ⟨texts', htexts, hfmt⟩ := Option.bind_eq_some_iff.mp hfmt
    obtain rfl := Option.some.inj hfmt
    obtain ⟨⟨s, hs⟩, hdata⟩ := List.forall_mem_cons.mp hdata
    obtain ⟨he, hevent⟩ := List.forall_mem_cons.mp hevent
    obtain ⟨hi, hid⟩ := List.forall_mem_cons.mp hid
    obtain ⟨raw, hraw, hread, hcut⟩ := readEvent_format hs he hi htext
    obtain ⟨raws, hsplit, hdispatch⟩ := ih hdata hevent hid htexts
    refine ⟨raw :: raws, ?_, ?_⟩
    · rw [List.flatten_cons, Utf8.encode_append, hraw, Framing.split_of_some (hcut _), hsplit]
    · rw [dispatch_cons_some hread, hdispatch]

/-- Messages with text data are read back from every chunking of their formatted stream; and for any
bytes at all, what is yielded does not depend on the chunking. -/
theorem iterSseEvents_format {msgs : List SSEMessage} (hdata : ∀ m ∈ msgs, ∃ s, m.data = .text s)
    (hevent : ∀ m ∈ msgs, ∀ e, m.event = some e → e ≠ [] ∧ '\n' ∉ e)
    (hid : ∀ m ∈ msgs, ∀ i, m.id = some i → i ≠ [] ∧ '\n' ∉ i) {texts : List (List Char)}
    (hfmt : msgs.mapM formatSseMessage = some texts) :
    (∀ chunks : List (List UInt8), chunks.flatten = Utf8.encode texts.flatten →
      iterSseEvents chunks = (msgs, none)) ∧
    ∀ chunks chunks' : List (List UInt8), chunks.flatten = chunks'.flatten →
      iterSseEvents chunks = iterSseEvents chunks' := by
  refine ⟨?_, ?_⟩
  · intro chunks hchunks
    obtain ⟨raws, hsplit, hdispatch⟩ := split_format hdata hevent hid hfmt
    have hblank : dispatch [[]] = ([], none) := rfl
    rw [iterSseEvents_eq, hchunks, hsplit, dispatch_append_of_none (by rw [hdispatch]), hdispatch, hblank,
      List.append_nil]
  · intro chunks chunks' h
    rw [iterSseEvents_eq, iterSseEvents_eq, h]

/-- Two messages, one of several lines and with all fields, cut inside a line end. -/
def sampleMessages : List SSEMessage :=
  [{ data := .text " a\r\n\nb".toList, event := some "log".toList, id := some " 7".toList, retry := some (-5) },
    { data := .text [] }]

def sampleTexts : List (List Char) :=
  ["event: log\nid:  7\nretry: -5\ndata:  a\r\ndata: \ndata: b\n\n".toList, "data: \n\n".toList]

theorem iterSseEvents_sample :
    iterSseEvents [(Utf8.encode sampleTexts.flatten).take 20, [], (Utf8.encode sampleTexts.flatten).drop 20] =
      (sampleMessages, none) := by
  have hfmt : sampleMessages.mapM formatSseMessage = some sampleTexts := rfl
  refine (iterSseEvents_format ?_ ?_ ?_ hfmt).1 _ ?_
  · simp [sampleMessages]
  · simp [sampleMessages]
  · simp [sampleMessages]
  · simp

end LlmGateway.Sse
