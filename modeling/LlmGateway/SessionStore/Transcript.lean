import Mathlib.Data.List.Sort
import LlmGateway.Foundations.Dict
import LlmGateway.Foundations.Decimal
import LlmGateway.SessionStore.Fence

/-!
# The transcript of a session

`render_transcript` writes a session as a markdown text: a title, four fixed sections, and one section for each
turn with the turn's body between fences. `parse_transcript` reads it again, section by section: a line that begins
with two hashes begins a section, unless it stands between fences.
-/

namespace LlmGateway.SessionStore

open Text

structure Turn where
  n : ℤ
  role : List Char
  body : List Char
  toolsDigest : Option (List Char)
  deriving DecidableEq

structure SessionDoc where
  sessionId : List Char
  metadata : Dict (List Char) (List Char)
  rollupText : List Char
  indexLines : List (List Char)
  archiveMapLines : List (List Char)
  turns : List Turn

/-- The exceptions of the reader and the writer. -/
inductive SchemaError where
  | invalidTitle (title : List Char)
  | malformedHeading (heading : List Char)
  | unfencedBody
  | fence (error : FenceError)
  | missingTitle
  | immutableArchive
  deriving DecidableEq

/-! ## The headings -/

/-- What stands behind a prefix. -/
def after? (p s : List Char) : Option (List Char) := if p.isPrefixOf s then some (s.drop p.length) else none

/-- `FIXED_SECTIONS`. -/
inductive FixedSection where
  | metadata
  | rollup
  | index
  | archiveMap
  deriving DecidableEq

def FixedSection.name : FixedSection → List Char
  | metadata => "Meta".toList
  | rollup => "Rollup".toList
  | index => "Index".toList
  | archiveMap => "Archive Map".toList

/-- What begins a section. -/
inductive Head where
  | fixed (name : FixedSection)
  | turn (digits role : List Char)
  deriving DecidableEq

/-- `TITLE_RE` on a stripped line. -/
def titleOf (line : List Char) : Option (List Char) :=
  ((after? "# Session ".toList line).filter fun s => !s.isEmpty).map strip

/-- `SECTION_RE`. -/
def sectionOf (heading : List Char) : Option FixedSection :=
  (after? "## ".toList heading).bind fun name =>
    [FixedSection.metadata, .rollup, .index, .archiveMap].find? fun fixed => fixed.name == name

/-- `TURN_HEADING_RE`: four decimal digits, of any script, and the role. -/
def turnOf (heading : List Char) : Option (List Char × List Char) :=
  (after? "## Turn ".toList heading).bind fun rest =>
    if (rest.take 4).length = 4 && (rest.take 4).all fun c => (Decimal.toAscii c).isDigit then
      ((after? " — ".toList (rest.drop 4)).filter fun role =>
        role == "user".toList || role == "assistant".toList).map fun role => (rest.take 4, role)
    else none

/-- The head of a section. -/
def headOf (heading : List Char) : Option Head :=
  match turnOf heading with
  | some (digits, role) => some (.turn digits role)
  | none => (sectionOf heading).map Head.fixed

/-! ## Sections -/

/-- The variables of the loop of `_iter_sections`. -/
structure Scan where
  fence : Option (Char × ℕ)
  current : Option Head
  body : List (List Char)

namespace Scan

/-- The section that ends. -/
def flush (x : Scan) : List (Head × List (List Char)) :=
  match x.current with
  | none => []
  | some head => [(head, x.body)]

/-- A fence line opens a fence, or closes the one that is open when it is of its length. -/
def fenceLine (W : WordClass) (x : Scan) (line : List Char) : Scan :=
  let fence := match x.fence with
    | none => (parseFenceOpen W line).map fun p => (p.1, p.2.1)
    | some (c, need) => if isClosingFenceLine line c need then none else some (c, need)
  { x with fence := fence, body := x.body ++ [line] }

/-- Any other line. -/
def plainLine (x : Scan) (line : List Char) : Scan :=
  if x.current.isSome then { x with body := x.body ++ [line] } else x

/-- A section begins. -/
def enter (x : Scan) (head : Head) : Scan :=
  { x with current := some head, body := if x.current.isSome then [] else x.body }

/-- A line that begins no section. -/
def feed (W : WordClass) (x : Scan) (line : List Char) : Scan :=
  if isFenceLine W line then x.fenceLine W line else x.plainLine line

end Scan

/-- `_iter_sections` behind the title: the sections, and what is raised behind them. -/
def iterSections (W : WordClass) (x : Scan) : List (List Char) → List (Head × List (List Char)) × Option SchemaError
  | [] => (x.flush, none)
  | line :: lines =>
    if !isFenceLine W line && x.fence.isNone && "## ".toList.isPrefixOf line then
      match headOf (strip line) with
      | none => (x.flush, some (.malformedHeading (strip line)))
      | some head =>
        let rest := iterSections W (x.enter head) lines
        (x.flush ++ rest.1, rest.2)
    else iterSections W (x.feed W line) lines

/-! ## Reading -/

/-- A stripped line of `_parse_meta_block`. -/
def metaItem (metadata : Dict (List Char) (List Char)) (s : List Char) : Dict (List Char) (List Char) :=
  if s.contains ':' then
    metadata.set (strip (s.takeWhile fun c => c != ':')) (strip ((s.dropWhile fun c => c != ':').drop 1))
  else metadata

def parseMetaBlock (text : List Char) : Dict (List Char) (List Char) :=
  (((splitlines text).map content).map strip).foldl metaItem ∅

/-- `(none)`. -/
def noneLine : List Char := "(none)".toList

def nonemptyLines (text : List Char) : List (List Char) :=
  (((splitlines text).map content).map strip).filter fun s => s != [] && s != noneLine

/-- `TOOLS_RE` on a stripped line. -/
def toolsOf (line : List Char) : Option (List Char) :=
  ((after? "tools:".toList line).filter fun s => !s.isEmpty).map strip

/-- The lines behind the blank ones. -/
def skipBlank (lines : List (List Char)) : List (List Char) := lines.dropWhile fun line => (strip line).isEmpty

/-- The tools digest in front of a turn's body, and the lines behind it. -/
def takeTools (lines : List (List Char)) : Option (List Char) × List (List Char) :=
  match lines with
  | [] => (none, [])
  | line :: rest =>
    match toolsOf (strip line) with
    | none => (none, line :: rest)
    | some tools => (some tools, skipBlank rest)

def parseTurnBody (W : WordClass) (lines : List (List Char)) :
    Except SchemaError (Option (List Char) × List Char) :=
  match takeTools (skipBlank lines) with
  | (_, []) => .error .unfencedBody
  | (tools, line :: rest) =>
    if isFenceLine W line then
      match extractFenced W (['\n'].intercalate (line :: rest)) with
      | .error e => .error (.fence e)
      | .ok body => .ok (tools, body)
    else .error .unfencedBody

/-- A section is read into the document. -/
def readSection (W : WordClass) (doc : SessionDoc) : Head × List (List Char) → Except SchemaError SessionDoc
  | (.fixed name, lines) =>
    let block := strip (['\n'].intercalate lines)
    match name with
    | .metadata => .ok { doc with metadata := parseMetaBlock block }
    | .rollup => .ok { doc with rollupText := block }
    | .index => .ok { doc with indexLines := nonemptyLines block }
    | .archiveMap => .ok { doc with archiveMapLines := nonemptyLines block }
  | (.turn digits role, lines) =>
    match parseTurnBody W lines with
    | .error e => .error e
    | .ok (tools, body) =>
      .ok { doc with turns := doc.turns ++ [⟨(Decimal.ofText digits).getD 0, role, body, tools⟩] }

/-- The document before its sections are read. -/
def SessionDoc.titled (sessionId : List Char) : SessionDoc := ⟨sessionId, ∅, [], [], [], []⟩

def parseTranscript (W : WordClass) (text : List Char) : Except SchemaError SessionDoc :=
  match text.splitOn '\n' with
  | [] => .error .missingTitle
  | first :: lines =>
    match titleOf (strip first) with
    | none => .error (.invalidTitle (strip first))
    | some sessionId =>
      let found := iterSections W ⟨none, none, []⟩ lines
      match found.1.foldlM (readSection W) (.titled sessionId) with
      | .error e => .error e
      | .ok doc =>
        match found.2 with
        | some e => .error e
        | none => if doc.sessionId.isEmpty then .error .missingTitle else .ok doc

/-! ## Writing -/

/-- `f"{n:04d}"`. -/
def padded : ℤ → List Char
  | .ofNat n => List.replicate (4 - (Nat.toDigits 10 n).length) '0' ++ Nat.toDigits 10 n
  | .negSucc n => '-' :: (List.replicate (3 - (Nat.toDigits 10 (n + 1)).length) '0' ++ Nat.toDigits 10 (n + 1))

/-- The meta with its defaults. -/
def SessionDoc.fullMeta (doc : SessionDoc) : Dict (List Char) (List Char) :=
  (doc.metadata.setDefault "session_id".toList doc.sessionId).setDefault "schema_version".toList "1".toList

/-- The lines, or the line that says that there are none. -/
def linesOrNone (lines : List (List Char)) : List (List Char) := if lines.isEmpty then [noneLine] else lines

/-- The heading of a turn. -/
def Turn.heading (t : Turn) : List Char := "## Turn ".toList ++ padded t.n ++ " — ".toList ++ t.role

/-- The parts of a turn. -/
def Turn.parts (W : WordClass) (t : Turn) : List (List Char) :=
  [[], t.heading, []] ++
    (match t.toolsDigest with
    | none => []
    | some tools => ["tools: ".toList ++ tools, []]) ++ [wrapFenced W t.body]

/-- The parts of a document. -/
def SessionDoc.parts (W : WordClass) (doc : SessionDoc) : List (List Char) :=
  ["# Session ".toList ++ doc.sessionId, [], "## Meta".toList, []] ++
    (doc.fullMeta.items.map fun e => e.1 ++ ": ".toList ++ e.2) ++ [[], "## Rollup".toList, []] ++
    [doc.rollupText] ++ [[], "## Index".toList, []] ++ linesOrNone doc.indexLines ++
    [[], "## Archive Map".toList, []] ++ linesOrNone doc.archiveMapLines ++
    (doc.turns.insertionSort fun s t => s.n ≤ t.n).flatMap (Turn.parts W)

def assertMutable (metadata : Dict (List Char) (List Char)) : Except SchemaError Unit :=
  if (metadata.getD "immutable".toList []).map Char.toLower = "true".toList then .error .immutableArchive else .ok ()

/-- `render_transcript` of a new document. -/
def renderNew (W : WordClass) (doc : SessionDoc) : List Char := ['\n'].intercalate (doc.parts W) ++ ['\n']

def renderTranscript (W : WordClass) (doc : SessionDoc) (original : Option SessionDoc) : Except SchemaError (List Char) :=
  match original with
  | none => .ok (renderNew W doc)
  | some original =>
    match assertMutable original.metadata with
    | .error e => .error e
    | .ok () => .ok (renderNew W doc)

end LlmGateway.SessionStore
