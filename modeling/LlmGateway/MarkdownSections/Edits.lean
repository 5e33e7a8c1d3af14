import LlmGateway.SessionStore.Sections

/-!
# Edits of the sections of a markdown text

A path names a section by its full path, by a display path, by its heading or by the end of its path, in this order;
where two sections answer, the path is refused. The body of the section that is named is read, replaced, appended to or
patched. A block between two XML tags is named by its tag, and only read.
-/

namespace LlmGateway.MarkdownSections

open Text SessionStore

inductive SectionError where
  | noPreamble
  | multipleMatches
  | ambiguous
  | multipleXml
  | notFound
  | xmlMutation
  | emptyTarget
  | targetNotFound
  deriving DecidableEq

/-! ## XML blocks -/

/-- `[a-z][a-z0-9_]*`. -/
def isTag : List Char → Bool
  | [] => false
  | c :: s => c.isLower && s.all fun d => d.isLower || d.isDigit || d == '_'

/-- A tag with its closing bracket, and white space behind it. -/
def tagOf (s : List Char) : Option (List Char) :=
  let tag := s.takeWhile fun c => c != '>'
  match s.drop tag.length with
  | '>' :: rest => if isTag tag && rest.all Json.isSpace then some tag else none
  | _ => none

/-- `_XML_TAG_RE`. -/
def openTag (line : List Char) : Option (List Char) :=
  match chomp line with
  | '<' :: s => tagOf s
  | _ => none

/-- `_XML_CLOSE_RE`. -/
def closeTag (line : List Char) : Option (List Char) :=
  match chomp line with
  | '<' :: '/' :: s => tagOf s
  | _ => none

def xmlSectionKey (tag : List Char) : List Char := '<' :: tag ++ ['>']

def normalizeXmlSectionQuery (path : List Char) : Option (List Char) :=
  let normalized := strip path
  let inner := strip (normalized.drop 1).dropLast
  if normalized.head? = some '<' ∧ normalized.getLast? = some '>' ∧ isTag inner then some (xmlSectionKey inner)
  else if isTag normalized then some (xmlSectionKey normalized)
  else none

/-- The lines of a block up to the one that closes it. -/
def blockLines (W : WordClass) (tag : List Char) (fence : Option (Char × ℕ)) :
    List (List Char) → Option (List (List Char))
  | [] => none
  | line :: lines =>
    if fence.isNone && (nextFence W fence line).isNone && closeTag line == some tag then some []
    else (blockLines W tag (nextFence W fence line) lines).map fun inner => line :: inner

/-- The loop of `parse_xml_block_sections`; the lines of a block are skipped. -/
def xmlBlocks (W : WordClass) (skip : ℕ) (fence : Option (Char × ℕ)) (index offset : ℕ) :
    List (List Char) → List Section
  | [] => []
  | line :: lines =>
    if 0 < skip then xmlBlocks W (skip - 1) fence (index + 1) (offset + line.length) lines
    else
      let next := nextFence W fence line
      let block := if fence.isNone && next.isNone then
          (openTag line).bind fun tag => (blockLines W tag none lines).map fun inner => (tag, inner)
        else none
      match block with
      | none => xmlBlocks W 0 next (index + 1) (offset + line.length) lines
      | some (tag, inner) =>
        let start := offset + line.length
        let key := xmlSectionKey tag
        ⟨key, 1, key, index + 1, start, start + inner.flatten.length, inner.flatten.length⟩ ::
          xmlBlocks W (inner.length + 1) none (index + 1) start lines

def parseXmlBlockSections (W : WordClass) (text : List Char) : List Section := xmlBlocks W 0 none 0 0 (splitlines text)

def resolveXmlSection (W : WordClass) (text path : List Char) : Except SectionError (Option Section) :=
  match normalizeXmlSectionQuery path with
  | none => .ok none
  | some key =>
    match (parseXmlBlockSections W text).filter fun sec => sec.path == key with
    | [] => .ok none
    | [sec] => .ok (some sec)
    | _ => .error .multipleXml

/-! ## Resolution -/

/-- `s.replace("\\/", "/")`. -/
def unescape : List Char → List Char
  | '\\' :: '/' :: s => '/' :: unescape s
  | c :: s => c :: unescape s
  | [] => []

/-- `path.endswith(f"/{leaf}")`. -/
def endsWithLeaf (path leaf : List Char) : Bool := ('/' :: leaf).isSuffixOf path

def exactMatches (sections : List Section) (normalized : List Char) : List Section :=
  sections.filter fun s => s.path == normalized

/-- The sections whose path, without escapes, ends with the one asked for; its first segment has to be a heading. -/
def displayMatches (sections : List Section) (lookup : List Char) : List Section :=
  if lookup.contains '/' &&
      sections.any (fun s => decide (0 < s.level) && s.heading == lookup.takeWhile fun c => c != '/') then
    sections.filter fun s => unescape s.path == lookup || endsWithLeaf (unescape s.path) lookup
  else []

def headingMatches (sections : List Section) (lookup : List Char) : List Section :=
  sections.filter fun s => s.heading == lookup

/-- The sections whose path ends with the one asked for, when that has no slash. -/
def suffixMatches (sections : List Section) (normalized : List Char) : List Section :=
  if normalized.contains '/' then []
  else sections.filter fun s => endsWithLeaf s.path normalized || s.path == normalized

/-- The one section of the first strategy that has any. -/
def firstMatch : List (SectionError × List Section) → Except SectionError (Option Section)
  | [] => .ok none
  | (_, []) :: rest => firstMatch rest
  | (_, [sec]) :: _ => .ok (some sec)
  | (e, _) :: _ => .error e

/-- The strategies of `resolve_section` for headings. -/
def resolveHeading (sections : List Section) (path : List Char) : Except SectionError (Option Section) :=
  let normalized := strip path
  let lookup := unescape normalized
  firstMatch [(.multipleMatches, exactMatches sections normalized), (.ambiguous, displayMatches sections lookup),
    (.ambiguous, headingMatches sections lookup), (.ambiguous, suffixMatches sections normalized)]

def resolveSection (W : WordClass) (text path : List Char) : Except SectionError Section :=
  if path = [] then
    match (parseSections W text).find? fun s => s.level == 0 with
    | some sec => .ok sec
    | none => .error .noPreamble
  else do
    match ← resolveHeading (parseSections W text) path with
    | some sec => .ok sec
    | none =>
      match ← resolveXmlSection W text path with
      | some sec => .ok sec
      | none => .error .notFound

def rejectXmlBlockMutation (W : WordClass) (text path : List Char) : Except SectionError Unit := do
  match ← resolveXmlSection W text path with
  | some _ => .error .xmlMutation
  | none => .ok ()

/-- `text[sec.start : sec.end]`. -/
def bodyOf (text : List Char) (sec : Section) : List Char := (text.take sec.stop).drop sec.start

def readSection (W : WordClass) (text path : List Char) : Except SectionError (List Char) :=
  (resolveSection W text path).map (bodyOf text)

/-! ## Edits -/

def stripLeadingHeading (W : WordClass) (content : List Char) (level : ℕ) (heading : List Char) : List Char × Bool :=
  match (parseSections W content).filter fun s => decide (0 < s.level) with
  | [] => (content, false)
  | first :: _ =>
    if strip (content.take (charUpto (splitlines content) (first.line - 1))) ≠ [] then (content, false)
    else if first.level = level ∧ first.heading = heading then (content.drop first.start, true)
    else (content, false)

def stripRedundantLeadingHeading (W : WordClass) (content : List Char) (sec : Section) : List Char × Bool :=
  stripLeadingHeading W content sec.level sec.heading

/-- The text with a newline behind it, unless it is empty or has one. -/
def terminated (s : List Char) : List Char := if s = [] ∨ s.getLast? = some '\n' then s else s ++ ['\n']

/-- The body with the newlines that `_set_section_body` puts behind it. -/
def padded (body after : List Char) : List Char :=
  let body := terminated body
  if after ≠ [] ∧ body ≠ [] ∧ ¬ ['\n', '\n'] <:+ body then body ++ ['\n'] else body

def setSectionBody (text : List Char) (sec : Section) (body : List Char) : List Char :=
  text.take sec.start ++ padded body (text.drop sec.stop) ++ text.drop sec.stop

def replaceSection (W : WordClass) (text path content : List Char) : Except SectionError (List Char × Bool) := do
  rejectXmlBlockMutation W text path
  let sec ← resolveSection W text path
  let body := stripRedundantLeadingHeading W content sec
  return (setSectionBody text sec body.1, body.2)

def appendSection (W : WordClass) (text path added : List Char) : Except SectionError (List Char × Bool) := do
  rejectXmlBlockMutation W text path
  let sec ← resolveSection W text path
  let fragment := stripRedundantLeadingHeading W added sec
  return (setSectionBody text sec (terminated (bodyOf text sec) ++ fragment.1), fragment.2)

/-- `s.replace(target, replacement)`, or only the first with `all` unset; `skip` characters are of an occurrence. -/
def replaced (target replacement : List Char) (all : Bool) : ℕ → List Char → List Char
  | _, [] => []
  | skip + 1, _ :: s => replaced target replacement all skip s
  | 0, c :: s =>
    if target.isPrefixOf (c :: s) then
      if all then replacement ++ replaced target replacement all (target.length - 1) s
      else replacement ++ s.drop (target.length - 1)
    else c :: replaced target replacement all 0 s

/-- `s.count(target)`. -/
def occurrences (target : List Char) : ℕ → List Char → ℕ
  | _, [] => 0
  | skip + 1, _ :: s => occurrences target skip s
  | 0, c :: s =>
    if target.isPrefixOf (c :: s) then occurrences target (target.length - 1) s + 1 else occurrences target 0 s

def patchSectionBody (W : WordClass) (text path target replacement : List Char) (allOccurrences : Bool) :
    Except SectionError (List Char × ℕ) :=
  if target = [] then .error .emptyTarget
  else do
    rejectXmlBlockMutation W text path
    let sec ← resolveSection W text path
    let body := bodyOf text sec
    if ¬ target <:+: body then .error .targetNotFound
    else return (setSectionBody text sec (replaced target replacement allOccurrences 0 body),
      if allOccurrences then occurrences target 0 body else 1)

end LlmGateway.MarkdownSections
