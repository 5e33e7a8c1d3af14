import Mathlib.Data.List.Pairwise
import LlmGateway.Foundations.Lines
import LlmGateway.Foundations.Utf8

/-!
# Chunks of source code

`chunk_code_ast` cuts a source along its syntax tree: siblings are merged while they fit into a budget of bytes that are
not blank, and a node that does not fit is replaced by its children. A class or a function definition is replaced by the
children of its body.

The syntax tree is an argument, and a chunk carries the bytes that its text is read from. What is written about a chunk
besides its text is left out, the scope of its class included.

White space is what `str.isspace` takes for it, by which a blank chunk is dropped. A tree is well formed when the children
of a node are in order, apart, within the node and miss only white space of it. What is left of a definition when it is
replaced by its body is in no chunk: every byte that is not white space is in one chunk just when no such definition is
split (`coveredOnce_iff`).
-/

namespace LlmGateway.Rag

/-! ## Syntax trees -/

/-- A node of a syntax tree, with the field that it is of the node above. -/
inductive Node where
  | mk (type : String) (startByte endByte : ℕ) (field : Option String) (children : List Node)

namespace Node

def type : Node → String
  | mk type _ _ _ _ => type

def startByte : Node → ℕ
  | mk _ startByte _ _ _ => startByte

def endByte : Node → ℕ
  | mk _ _ endByte _ _ => endByte

def field : Node → Option String
  | mk _ _ _ field _ => field

def children : Node → List Node
  | mk _ _ _ _ children => children

def childByFieldName (node : Node) (name : String) : Option Node := node.children.find? fun c => c.field == some name

/-- The byte at `p` is in the node. -/
def Has (node : Node) (p : ℕ) : Prop := node.startByte ≤ p ∧ p < node.endByte

theorem sizeOf_children (node : Node) : sizeOf node.children < sizeOf node := by
  obtain ⟨type, startByte, endByte, field, children⟩ := node
  simp only [Node.children, mk.sizeOf_spec]
  omega

end Node

/-! ## Cutting -/

/-- `source[start:stop]`. -/
def slice (source : List UInt8) (start stop : ℕ) : List UInt8 := (source.take stop).drop start

def nwsLen (text : List UInt8) : ℕ :=
  text.length - text.count 32 - text.count 9 - text.count 10 - text.count 13

def nodeNws (source : List UInt8) (node : Node) : ℕ := nwsLen (slice source node.startByte node.endByte)

def splitChildren (node : Node) : List Node :=
  if node.type = "class_definition" ∨ node.type = "function_definition" then
    match node.childByFieldName "body" with
    | some body => if body.children.isEmpty then node.children else body.children
    | none => node.children
  else node.children

theorem splitChildren_eq (node : Node) : splitChildren node = node.children ∨
    ∃ body ∈ node.children, splitChildren node = body.children := by
  unfold splitChildren
  split_ifs
  · cases hbody : node.childByFieldName "body" with
    | none => exact .inl rfl
    | some body =>
      simp only
      split_ifs
      · exact .inl rfl
      · exact .inr ⟨body, List.mem_of_find?_eq_some hbody, rfl⟩
  · exact .inl rfl

theorem sizeOf_splitChildren (node : Node) : sizeOf (splitChildren node) < sizeOf node := by
  obtain heq | ⟨body, hbody, heq⟩ := splitChildren_eq node
  · rw [heq]
    exact node.sizeOf_children
  · rw [heq]
    exact body.sizeOf_children.trans ((List.sizeOf_lt_of_mem hbody).trans node.sizeOf_children)

/-- The siblings gathered so far, as a chunk. -/
def flush (current : List Node) : List (List Node) := if current.isEmpty then [] else [current]

/-- `_chunk_ast_nodes`, with the siblings gathered so far and their size. -/
def chunkAstNodes (source : List UInt8) (maxNws : ℤ) : List Node → List Node → ℕ → List (List Node)
  | [], current, _ => flush current
  | node :: nodes, current, size =>
    if maxNws < (size + nodeNws source node : ℕ) then
      flush current ++
        if maxNws < nodeNws source node then
          (if node.type = "decorated_definition" ∨ (splitChildren node).isEmpty = true then [[node]]
            else chunkAstNodes source maxNws (splitChildren node) [] 0) ++
            chunkAstNodes source maxNws nodes [] (if current.isEmpty then size else 0)
        else chunkAstNodes source maxNws nodes [node] (nodeNws source node)
    else chunkAstNodes source maxNws nodes (current ++ [node]) (size + nodeNws source node)
  termination_by nodes => sizeOf nodes
  decreasing_by
  · have := sizeOf_splitChildren node
    simp only [List.cons.sizeOf_spec]
    omega
  all_goals
    simp only [List.cons.sizeOf_spec]
    omega

/-- A chunk, with the bytes that its text is read from. -/
structure CodeChunk where
  start : ℕ
  stop : ℕ
  text : List Char

/-- The chunk of some siblings; none when its text is blank. -/
def chunkOf (source : List UInt8) (nodes : List Node) : Option CodeChunk :=
  match nodes.head?, nodes.getLast? with
  | some first, some last =>
    let text := Utf8.decode (slice source first.startByte last.endByte)
    if Text.strip text = [] then none else some ⟨first.startByte, last.endByte, text⟩
  | _, _ => none

/-- `chunk_code_ast`, for the root of the syntax tree. -/
def chunkCodeAst (content : List Char) (root : Node) (maxChunkChars : ℤ) : List CodeChunk :=
  let source := Utf8.encode content
  if nodeNws source root ≤ maxChunkChars then
    if Text.strip content = [] then [] else [⟨0, source.length, content⟩]
  else (chunkAstNodes source maxChunkChars root.children [] 0).filterMap (chunkOf source)

/-! ## White space -/

/-- The byte at `p` is of a character that is white space. -/
def White (source : List UInt8) (p : ℕ) : Prop :=
  ∃ c a, Json.isSpace c = true ∧ String.utf8EncodeChar c <+: source.drop a ∧ a ≤ p ∧ p < a + c.utf8Size

variable {source : List UInt8} {maxNws : ℤ}

theorem exists_char {cs : List Char} {p : ℕ} (h : p < (Utf8.encode cs).length) : ∃ c ∈ cs, ∃ x y,
    Utf8.encode cs = x ++ String.utf8EncodeChar c ++ y ∧ x.length ≤ p ∧ p < x.length + c.utf8Size := by
  induction cs generalizing p with
  | nil => cases h
  | cons c cs ih =>
    rw [Utf8.encode_cons, List.length_append, String.length_utf8EncodeChar] at h
    by_cases hfirst : p < c.utf8Size
    · exact ⟨c, List.mem_cons_self, [], Utf8.encode cs, Utf8.encode_cons c cs, Nat.zero_le _, by simpa using hfirst⟩
    · obtain ⟨d, hd, x, y, hcs, hle, hlt⟩ := ih (p := p - c.utf8Size) (by omega)
      refine ⟨d, List.mem_cons_of_mem c hd, String.utf8EncodeChar c ++ x, y, ?_, ?_, ?_⟩
      · rw [Utf8.encode_cons, hcs, List.append_assoc, List.append_assoc, List.append_assoc]
      · rw [List.length_append, String.length_utf8EncodeChar]
        omega
      · rw [List.length_append, String.length_utf8EncodeChar]
        omega

theorem white_of_blank {start stop p : ℕ} (h : Text.strip (Utf8.decode (slice source start stop)) = [])
    (hstart : start ≤ p) (hstop : p < stop) (hp : p < source.length) : White source p := by
  have hspace := Text.strip_eq_nil_iff.1 h
  have hencode := Utf8.encode_decode fun hmem => absurd (hspace _ hmem) (by decide)
  have hlen : p - start < (Utf8.encode (Utf8.decode (slice source start stop))).length := by
    rw [hencode, slice, List.length_drop, List.length_take]
    omega
  obtain ⟨c, hc, x, y, hxy, hle, hlt⟩ := exists_char hlen
  obtain ⟨rest, hrest⟩ : slice source start stop <+: source.drop start := (List.take_prefix stop source).drop start
  refine ⟨c, start + x.length, hspace c hc, ⟨y ++ rest, ?_⟩, by omega, by omega⟩
  rw [← List.drop_drop, ← hrest, ← hencode, hxy, List.append_assoc, List.append_assoc, List.drop_left]

/-! ## Well-formed trees -/

/-- The children of a node are in order, apart, within the node and miss only white space of it, and so on below. -/
inductive WellFormed (source : List UInt8) : Node → Prop where
  | mk {node : Node} (span : node.startByte ≤ node.endByte)
    (ordered : node.children.Pairwise fun a b => a.endByte ≤ b.startByte)
    (within : ∀ c ∈ node.children, node.startByte ≤ c.startByte ∧ c.endByte ≤ node.endByte)
    (covered : node.children ≠ [] → ∀ p, node.Has p → ¬White source p → ∃ c ∈ node.children, c.Has p)
    (children : ∀ c ∈ node.children, WellFormed source c) : WellFormed source node

/-- Well-formed nodes in order, with only white space between them. -/
structure Siblings (source : List UInt8) (nodes : List Node) : Prop where
  wellFormed : ∀ n ∈ nodes, WellFormed source n
  ordered : nodes.Pairwise fun a b => a.endByte ≤ b.startByte
  tiled : ∀ p, ¬White source p → ∀ a ∈ nodes, ∀ b ∈ nodes, a.startByte ≤ p → p < b.endByte → ∃ n ∈ nodes, n.Has p

namespace Siblings

variable {nodes nodes' : List Node}

theorem left (h : Siblings source (nodes ++ nodes')) : Siblings source nodes := by
  obtain ⟨hnodes, -, hcross⟩ := List.pairwise_append.1 h.ordered
  refine ⟨fun n hn => h.wellFormed n (List.mem_append_left _ hn), hnodes, fun p hp a ha b hb hap hpb => ?_⟩
  obtain ⟨n, hn, hhas⟩ := h.tiled p hp a (List.mem_append_left _ ha) b (List.mem_append_left _ hb) hap hpb
  obtain hn | hn := List.mem_append.1 hn
  · exact ⟨n, hn, hhas⟩
  · have hlate := hcross b hb n hn
    have hstart := hhas.1
    omega

theorem right (h : Siblings source (nodes ++ nodes')) : Siblings source nodes' := by
  obtain ⟨-, hnodes, hcross⟩ := List.pairwise_append.1 h.ordered
  refine ⟨fun n hn => h.wellFormed n (List.mem_append_right _ hn), hnodes, fun p hp a ha b hb hap hpb => ?_⟩
  obtain ⟨n, hn, hhas⟩ := h.tiled p hp a (List.mem_append_right _ ha) b (List.mem_append_right _ hb) hap hpb
  obtain hn | hn := List.mem_append.1 hn
  · have hearly := hcross n hn a ha
    have hstop := hhas.2
    omega
  · exact ⟨n, hn, hhas⟩

theorem eq_of_has (h : Siblings source nodes) {a b : Node} {p : ℕ} (ha : a ∈ nodes) (hb : b ∈ nodes) (hap : a.Has p)
    (hbp : b.Has p) : a = b := by
  have hapart : nodes.Pairwise fun a b => ¬(a.Has p ∧ b.Has p) := h.ordered.imp fun {a b} hle hboth => by
    have hstop := hboth.1.2
    have hstart := hboth.2.1
    omega
  have hsymm : Std.Symm fun a b : Node => ¬(a.Has p ∧ b.Has p) := ⟨fun _ _ hnot hboth => hnot hboth.symm⟩
  by_contra hne
  exact hapart.forall ha hb hne ⟨hap, hbp⟩

end Siblings

theorem WellFormed.siblings {node : Node} (h : WellFormed source node) : Siblings source node.children := by
  obtain ⟨-, hordered, hwithin, hcovered, hchildren⟩ := h
  refine ⟨hchildren, hordered, fun p hp a ha b hb hap hpb => ?_⟩
  have hstart := (hwithin a ha).1
  have hstop := (hwithin b hb).2
  exact hcovered (List.ne_nil_of_mem ha) p ⟨by omega, by omega⟩ hp

theorem WellFormed.covered_children {node : Node} (h : WellFormed source node) (hne : node.children ≠ []) :
    ∀ p, node.Has p → ¬White source p → ∃ c ∈ node.children, c.Has p := by
  obtain ⟨-, -, -, hcovered, -⟩ := h
  exact hcovered hne

theorem WellFormed.children_within {node : Node} (h : WellFormed source node) :
    ∀ c ∈ node.children, node.startByte ≤ c.startByte ∧ c.endByte ≤ node.endByte := by
  obtain ⟨-, -, hwithin, -, -⟩ := h
  exact hwithin

theorem WellFormed.splitChildren {node : Node} (h : WellFormed source node) : Siblings source (splitChildren node) := by
  obtain heq | ⟨body, hbody, heq⟩ := splitChildren_eq node
  · rw [heq]
    exact h.siblings
  · rw [heq]
    exact (h.siblings.wellFormed body hbody).siblings

theorem WellFormed.splitChildren_within {node : Node} (h : WellFormed source node) :
    ∀ c ∈ Rag.splitChildren node, node.startByte ≤ c.startByte ∧ c.endByte ≤ node.endByte := by
  intro c hc
  obtain heq | ⟨body, hbody, heq⟩ := splitChildren_eq node
  · rw [heq] at hc
    exact h.children_within c hc
  · rw [heq] at hc
    have hout := h.children_within body hbody
    have hin := (h.siblings.wellFormed body hbody).children_within c hc
    omega

/-! ## Which bytes are kept -/

/-- The node is not replaced. -/
def Intact (source : List UInt8) (maxNws : ℤ) (node : Node) : Prop :=
  nodeNws source node ≤ maxNws ∨ node.type = "decorated_definition" ∨ splitChildren node = []

/-- The byte of the node gets into a chunk. -/
inductive Kept (source : List UInt8) (maxNws : ℤ) (p : ℕ) : Node → Prop where
  | whole {node : Node} (h : Intact source maxNws node) (hp : node.Has p) : Kept source maxNws p node
  | split {node c : Node} (h : ¬Intact source maxNws node) (hc : c ∈ splitChildren node)
    (hk : Kept source maxNws p c) : Kept source maxNws p node

/-- No definition is split of which something that is not white space is outside of the children of its body. -/
inductive Safe (source : List UInt8) (maxNws : ℤ) : Node → Prop where
  | whole {node : Node} (h : Intact source maxNws node) : Safe source maxNws node
  | split {node : Node} (hbody : splitChildren node ≠ node.children →
      ∀ p, node.Has p → ¬White source p → ∃ c ∈ splitChildren node, c.Has p)
    (hc : ∀ c ∈ splitChildren node, Safe source maxNws c) : Safe source maxNws node

variable {node : Node} {nodes current : List Node} {size p : ℕ}

theorem kept_iff_of_intact (h : Intact source maxNws node) : Kept source maxNws p node ↔ node.Has p := by
  refine ⟨fun hk => ?_, fun hp => .whole h hp⟩
  cases hk with
  | whole _ hp => exact hp
  | split hnot _ _ => exact (hnot h).elim

theorem kept_iff_of_not_intact (h : ¬Intact source maxNws node) :
    Kept source maxNws p node ↔ ∃ c ∈ splitChildren node, Kept source maxNws p c := by
  refine ⟨fun hk => ?_, fun ⟨c, hc, hk⟩ => .split h hc hk⟩
  cases hk with
  | whole hint _ => exact (h hint).elim
  | split _ hc hk => exact ⟨_, hc, hk⟩

theorem Kept.has (hk : Kept source maxNws p node) (h : WellFormed source node) : node.Has p := by
  induction hk with
  | whole _ hp => exact hp
  | split _ hc _ ih =>
    have hwithin := h.splitChildren_within _ hc
    have hhas := ih (h.splitChildren.wellFormed _ hc)
    exact ⟨hwithin.1.trans hhas.1, hhas.2.trans_le hwithin.2⟩

theorem safe_iff (h : WellFormed source node) : Safe source maxNws node ↔
    ∀ p, node.Has p → ¬White source p → Kept source maxNws p node := by
  constructor
  · intro hsafe
    induction hsafe with
    | whole hint => exact fun p hp _ => .whole hint hp
    | @split node hbody hc ih =>
      intro p hp hwhite
      by_cases hint : Intact source maxNws node
      · exact .whole hint hp
      · obtain ⟨c, hc, hhas⟩ : ∃ c ∈ splitChildren node, c.Has p := by
          by_cases hall : splitChildren node = node.children
          · rw [hall]
            exact h.covered_children (fun hnil => hint (.inr (.inr (hall.trans hnil)))) p hp hwhite
          · exact hbody hall p hp hwhite
        exact .split hint hc (ih c hc (h.splitChildren.wellFormed c hc) p hhas hwhite)
  · induction hsize : sizeOf node using Nat.strong_induction_on generalizing node with
    | _ size ih =>
      intro hkept
      by_cases hint : Intact source maxNws node
      · exact .whole hint
      · have hsiblings := h.splitChildren
        refine .split (fun _ p hp hwhite => ?_) fun c hc => ?_
        · obtain ⟨c, hc, hk⟩ := (kept_iff_of_not_intact hint).1 (hkept p hp hwhite)
          exact ⟨c, hc, hk.has (hsiblings.wellFormed c hc)⟩
        · have hlt : sizeOf c < size := by
            rw [← hsize]
            exact (List.sizeOf_lt_of_mem hc).trans (sizeOf_splitChildren node)
          refine ih (sizeOf c) hlt (hsiblings.wellFormed c hc) rfl fun p hp hwhite => ?_
          have hwithin := h.splitChildren_within c hc
          have hnode : node.Has p := ⟨hwithin.1.trans hp.1, hp.2.trans_le hwithin.2⟩
          -- The child that keeps the byte is the one that has it.
          obtain ⟨c', hc', hk⟩ := (kept_iff_of_not_intact hint).1 (hkept p hnode hwhite)
          obtain rfl := hsiblings.eq_of_has hc hc' hp (hk.has (hsiblings.wellFormed c' hc'))
          exact hk

/-! ## The chunks of siblings -/

/-- The byte at `p` is in the chunk. -/
def CodeChunk.Has (chunk : CodeChunk) (p : ℕ) : Prop := chunk.start ≤ p ∧ p < chunk.stop

instance (node : Node) : DecidablePred node.Has := fun _ => inferInstanceAs (Decidable (_ ∧ _))

instance (chunk : CodeChunk) : DecidablePred chunk.Has := fun _ => inferInstanceAs (Decidable (_ ∧ _))

/-- The byte at `p` is in what is read for the chunk of some siblings. -/
def spans (p : ℕ) (nodes : List Node) : Bool :=
  match nodes.head?, nodes.getLast? with
  | some first, some last => first.startByte ≤ p && p < last.endByte
  | _, _ => false

theorem Siblings.bounds (h : Siblings source nodes) {first last : Node} (hfirst : first ∈ nodes.head?)
    (hlast : last ∈ nodes.getLast?) {n : Node} (hn : n ∈ nodes) :
    first.startByte ≤ n.startByte ∧ n.endByte ≤ last.endByte := by
  have hspan : ∀ n ∈ nodes, n.startByte ≤ n.endByte := fun n hn => by
    obtain ⟨hspan, -, -, -, -⟩ := h.wellFormed n hn
    exact hspan
  constructor
  · obtain ⟨rest, rfl⟩ := List.head?_eq_some_iff.1 hfirst
    obtain rfl | hrest := List.mem_cons.1 hn
    · exact le_rfl
    · exact (hspan first List.mem_cons_self).trans ((List.pairwise_cons.1 h.ordered).1 n hrest)
  · obtain ⟨rest, rfl⟩ := List.getLast?_eq_some_iff.1 hlast
    obtain hrest | hrest := List.mem_append.1 hn
    · have hle := (List.pairwise_append.1 h.ordered).2.2 n hrest last (List.mem_singleton_self last)
      exact hle.trans (hspan last (List.mem_append_right rest (List.mem_singleton_self last)))
    · rw [List.mem_singleton.1 hrest]

theorem Siblings.spans_iff (h : Siblings source nodes) (hp : ¬White source p) :
    spans p nodes = true ↔ ∃ n ∈ nodes, n.Has p := by
  cases hfirst : nodes.head? with
  | none =>
    rw [List.head?_eq_none_iff.1 hfirst]
    simp [spans]
  | some first =>
    cases hlast : nodes.getLast? with
    | none =>
      rw [List.getLast?_eq_none_iff.1 hlast]
      simp [spans]
    | some last =>
      simp only [spans, hfirst, hlast, Bool.and_eq_true, decide_eq_true_eq]
      constructor
      · rintro ⟨hle, hlt⟩
        exact h.tiled p hp first (List.mem_of_head? hfirst) last (List.mem_of_getLast? hlast) hle hlt
      · rintro ⟨n, hn, hhas⟩
        have hbounds := h.bounds hfirst hlast hn
        exact ⟨hbounds.1.trans hhas.1, hhas.2.trans_le hbounds.2⟩

theorem Siblings.countP_eq (h : Siblings source nodes) (P : Node → Prop) [DecidablePred P]
    (hP : ∀ n ∈ nodes, P n → n.Has p) : nodes.countP P = if ∃ n ∈ nodes, P n then 1 else 0 := by
  induction nodes with
  | nil => rw [List.countP_nil, if_neg fun ⟨n, hn, _⟩ => by cases hn]
  | cons node nodes ih =>
    have htail : Siblings source nodes := (show Siblings source ([node] ++ nodes) from h).right
    rw [List.countP_cons, ih htail fun n hn => hP n (List.mem_cons_of_mem node hn)]
    by_cases hnode : P node
    · -- The node has the byte, so that no other one of them does.
      have hnone : ¬∃ n ∈ nodes, P n := fun ⟨n, hn, hPn⟩ => by
        have hlate := (List.pairwise_cons.1 h.ordered).1 n hn
        have hstop := (hP node List.mem_cons_self hnode).2
        have hstart := (hP n (List.mem_cons_of_mem node hn) hPn).1
        omega
      rw [if_neg hnone, if_pos (decide_eq_true hnode), if_pos ⟨node, List.mem_cons_self, hnode⟩]
    · rw [if_neg fun h => hnode (of_decide_eq_true h), Nat.add_zero]
      congr 1
      simp only [List.mem_cons, exists_eq_or_imp, hnode, false_or]

theorem Siblings.countP_flush (h : Siblings source current) (hp : ¬White source p) :
    (flush current).countP (spans p) = current.countP (·.Has p) := by
  rw [h.countP_eq _ fun _ _ hhas => hhas]
  cases current with
  | nil => rfl
  | cons node rest =>
    rw [flush, List.isEmpty_cons, if_neg Bool.false_ne_true, List.countP_cons, List.countP_nil, Nat.zero_add]
    simp only [h.spans_iff hp]

open Classical in
theorem countP_intact (h : WellFormed source node) (hint : Intact source maxNws node) (hp : ¬White source p) :
    [[node]].countP (spans p) = if Kept source maxNws p node then 1 else 0 := by
  have hsingle : Siblings source [node] := ⟨fun n hn => List.mem_singleton.1 hn ▸ h, List.pairwise_singleton _ _,
    fun p _ a ha b hb hap hpb => ⟨node, List.mem_singleton_self node, List.mem_singleton.1 ha ▸ hap,
      List.mem_singleton.1 hb ▸ hpb⟩⟩
  rw [List.countP_cons, List.countP_nil, Nat.zero_add]
  simp only [hsingle.spans_iff hp, List.mem_singleton, exists_eq_left, kept_iff_of_intact hint]

open Classical in
theorem countP_chunkAstNodes (hp : ¬White source p) (h : Siblings source (current ++ nodes)) :
    (chunkAstNodes source maxNws nodes current size).countP (spans p) =
      current.countP (·.Has p) + nodes.countP (Kept source maxNws p) := by
  induction nodes, current, size using chunkAstNodes.induct source maxNws with
  | case1 current size =>
    rw [List.append_nil] at h
    rw [chunkAstNodes, h.countP_flush hp, List.countP_nil, Nat.add_zero]
  | case2 node nodes current size hbig ihsplit ihrest ihnext =>
    have hrest : Siblings source (node :: nodes) := h.right
    have hnodes : Siblings source nodes := (show Siblings source ([node] ++ nodes) from hrest).right
    rw [chunkAstNodes, if_pos hbig, List.countP_append, h.left.countP_flush hp, List.countP_cons]
    have hnode : WellFormed source node := hrest.wellFormed node List.mem_cons_self
    by_cases hown : maxNws < nodeNws source node
    · -- Either way the chunks of the node have what is kept of it.
      have hsplit : (if node.type = "decorated_definition" ∨ (splitChildren node).isEmpty = true then [[node]]
          else chunkAstNodes source maxNws (splitChildren node) [] 0).countP (spans p) =
            if Kept source maxNws p node then 1 else 0 := by
        by_cases hatomic : node.type = "decorated_definition" ∨ (splitChildren node).isEmpty = true
        · rw [if_pos hatomic]
          exact countP_intact hnode (.inr (hatomic.imp_right List.isEmpty_iff.1)) hp
        · have hint : ¬Intact source maxNws node := by
            rintro (hfits | hdecorated | hnil)
            · omega
            · exact hatomic (.inl hdecorated)
            · exact hatomic (.inr (List.isEmpty_iff.2 hnil))
          have hchildren := hnode.splitChildren
          rw [if_neg hatomic, ihsplit hchildren, List.countP_nil, Nat.zero_add,
            hchildren.countP_eq _ fun c hc hk => hk.has (hchildren.wellFormed c hc)]
          simp only [kept_iff_of_not_intact hint]
      have hlater := ihrest hnodes
      simp only [dite_eq_ite, List.countP_nil, Nat.zero_add] at hlater
      rw [if_pos hown, List.countP_append, hsplit, hlater]
      simp only [decide_eq_true_eq]
      omega
    · have hint : Intact source maxNws node := .inl (by omega)
      rw [if_neg hown, ihnext hrest, List.countP_cons, List.countP_nil, Nat.zero_add]
      simp only [kept_iff_of_intact hint]
      omega
  | case3 node nodes current size hfits ih =>
    have hint : Intact source maxNws node := .inl (by omega)
    rw [chunkAstNodes, if_neg hfits, ih (by rwa [List.append_assoc]), List.countP_append, List.countP_cons, List.countP_cons,
      List.countP_nil]
    simp only [kept_iff_of_intact hint]
    omega

/-! ## All of a source -/

section

variable {content : List Char} {root : Node} {maxChunkChars : ℤ}

theorem has_chunkOf (hp : ¬White source p) (hlt : p < source.length) :
    (((chunkOf source nodes).map fun chunk => decide (chunk.Has p)).getD false) = spans p nodes := by
  unfold chunkOf spans
  split
  case h_1 first last _ _ =>
    by_cases hblank : Text.strip (Utf8.decode (slice source first.startByte last.endByte)) = []
    · simp only [hblank, if_true, Option.map_none, Option.getD_none]
      by_contra hne
      have hspan : first.startByte ≤ p ∧ p < last.endByte := by simpa using Ne.symm hne
      exact hp (white_of_blank hblank hspan.1 hspan.2 hlt)
    · simp only [hblank, if_false, Option.map_some, Option.getD_some]
      rw [← Bool.decide_and]
      rfl
  case h_2 => rfl

open Classical in
theorem countP_chunkCodeAst (h : WellFormed (Utf8.encode content) root) (hp : ¬White (Utf8.encode content) p)
    (hlt : p < (Utf8.encode content).length) (hbig : ¬nodeNws (Utf8.encode content) root ≤ maxChunkChars) :
    (chunkCodeAst content root maxChunkChars).countP (·.Has p) =
      if ∃ c ∈ root.children, Kept (Utf8.encode content) maxChunkChars p c then 1 else 0 := by
  have hchildren := h.siblings
  simp only [chunkCodeAst]
  rw [if_neg hbig, List.countP_filterMap, List.countP_congr fun nodes _ => by rw [has_chunkOf hp hlt],
    countP_chunkAstNodes hp hchildren, List.countP_nil, Nat.zero_add,
    hchildren.countP_eq _ fun c hc hk => hk.has (hchildren.wellFormed c hc)]

theorem countP_whole (hp : ¬White (Utf8.encode content) p) (hlt : p < (Utf8.encode content).length)
    (hfits : nodeNws (Utf8.encode content) root ≤ maxChunkChars) :
    (chunkCodeAst content root maxChunkChars).countP (·.Has p) = 1 := by
  have hcontent : Text.strip content ≠ [] := fun hblank => by
    have hslice : Text.strip (Utf8.decode (slice (Utf8.encode content) 0 (Utf8.encode content).length)) = [] := by
      rw [slice, List.take_length, List.drop_zero, Utf8.decode_encode, hblank]
    exact hp (white_of_blank hslice (Nat.zero_le p) hlt hlt)
  simp only [chunkCodeAst]
  rw [if_pos hfits, if_neg hcontent, List.countP_cons, List.countP_nil, Nat.zero_add]
  exact if_pos (decide_eq_true ⟨Nat.zero_le p, hlt⟩)

end

/-- Every byte of the root that is not white space is in one chunk just when the root fits, or it has children and none
of them has a definition that is split and of which something is outside of its body. -/
theorem coveredOnce_iff (content : List Char) (root : Node) (maxChunkChars : ℤ)
    (h : WellFormed (Utf8.encode content) root) (hend : root.endByte ≤ (Utf8.encode content).length) :
    (∀ p, root.Has p → ¬White (Utf8.encode content) p →
        (chunkCodeAst content root maxChunkChars).countP (·.Has p) = 1) ↔
      nodeNws (Utf8.encode content) root ≤ maxChunkChars ∨
        (root.children = [] → ∀ p, root.Has p → White (Utf8.encode content) p) ∧
          ∀ c ∈ root.children, Safe (Utf8.encode content) maxChunkChars c := by
  have hchildren := h.siblings
  by_cases hfits : nodeNws (Utf8.encode content) root ≤ maxChunkChars
  · exact iff_of_true (fun p hp hwhite => countP_whole hwhite (hp.2.trans_le hend) hfits) (.inl hfits)
  rw [or_iff_right hfits]
  have hkept : ∀ p, root.Has p → ¬White (Utf8.encode content) p →
      ((chunkCodeAst content root maxChunkChars).countP (·.Has p) = 1 ↔
        ∃ c ∈ root.children, Kept (Utf8.encode content) maxChunkChars p c) := fun p hp hwhite => by
    rw [countP_chunkCodeAst h hwhite (hp.2.trans_le hend) hfits]
    split_ifs with hex
    · exact iff_of_true rfl hex
    · exact iff_of_false not_false hex
  constructor
  · intro hone
    refine ⟨fun hnil p hp => ?_, fun c hc => (safe_iff (hchildren.wellFormed c hc)).2 fun p hp hwhite => ?_⟩
    · by_contra hwhite
      obtain ⟨c, hc, -⟩ := (hkept p hp hwhite).1 (hone p hp hwhite)
      rw [hnil] at hc
      cases hc
    · have hwithin := h.children_within c hc
      have hroot : root.Has p := ⟨hwithin.1.trans hp.1, hp.2.trans_le hwithin.2⟩
      obtain ⟨c', hc', hk⟩ := (hkept p hroot hwhite).1 (hone p hroot hwhite)
      obtain rfl := hchildren.eq_of_has hc hc' hp (hk.has (hchildren.wellFormed c' hc'))
      exact hk
  · rintro ⟨hempty, hsafe⟩ p hp hwhite
    obtain ⟨c, hc, hhas⟩ := h.covered_children (fun hnil => hwhite (hempty hnil p hp)) p hp hwhite
    exact (hkept p hp hwhite).2 ⟨c, hc, (safe_iff (hchildren.wellFormed c hc)).1 (hsafe c hc) p hhas hwhite⟩

/-- A node without children. -/
def leaf (type : String) (startByte endByte : ℕ) (field : Option String) : Node := .mk type startByte endByte field []

theorem wellFormed_leaf {type : String} {startByte endByte : ℕ} {field : Option String} (h : startByte ≤ endByte) :
    WellFormed source (leaf type startByte endByte field) :=
  ⟨h, List.Pairwise.nil, nofun, fun hne => (hne rfl).elim, nofun⟩

/-- A node with the bytes of its only child. -/
def wrap (type : String) (field : Option String) (c : Node) : Node := .mk type c.startByte c.endByte field [c]

theorem WellFormed.wrap {type : String} {field : Option String} {c : Node} (h : WellFormed source c) :
    WellFormed source (wrap type field c) := by
  have hc := h
  obtain ⟨hspan, -, -, -, -⟩ := h
  refine ⟨hspan, List.pairwise_singleton _ c, ?_, fun _ p hp _ => ⟨c, List.mem_singleton_self c, hp⟩, ?_⟩
  · rintro d hd
    obtain rfl := List.mem_singleton.1 hd
    exact ⟨le_rfl, le_rfl⟩
  · rintro d hd
    obtain rfl := List.mem_singleton.1 hd
    exact hc

theorem WellFormed.of_gaps (gaps : List ℕ) (hgaps : ∀ p ∈ gaps, White source p) (span : node.startByte ≤ node.endByte)
    (ordered : node.children.Pairwise fun a b => a.endByte ≤ b.startByte)
    (within : ∀ c ∈ node.children, node.startByte ≤ c.startByte ∧ c.endByte ≤ node.endByte)
    (covered : ∀ p < node.endByte, node.startByte ≤ p → (∃ c ∈ node.children, c.Has p) ∨ p ∈ gaps)
    (children : ∀ c ∈ node.children, WellFormed source c) : WellFormed source node :=
  ⟨span, ordered, within,
    fun _ p hp hwhite => (covered p hp.2 hp.1).resolve_right fun hgap => hwhite (hgaps p hgap), children⟩

/-- The tree of `a⏎b`. -/
def twoLines : Node :=
  .mk "module" 0 3 none [wrap "expression_statement" none (leaf "identifier" 0 1 none),
    wrap "expression_statement" none (leaf "identifier" 2 3 none)]

theorem wellFormed_twoLines : WellFormed (Utf8.encode "a\nb".toList) twoLines := by
  have hline : White (Utf8.encode "a\nb".toList) 1 := ⟨'\n', 1, by decide, ⟨[98], by decide⟩, by decide, by decide⟩
  refine .of_gaps [1] (by simpa using hline) (by decide) (by decide) (by decide) (by decide) ?_
  simp only [twoLines, Node.children, List.forall_mem_cons, List.not_mem_nil, false_imp_iff, implies_true, and_true]
  exact ⟨(wellFormed_leaf (by decide)).wrap, (wellFormed_leaf (by decide)).wrap⟩

/-- The tree of `def f():0`. -/
def oneLiner : Node :=
  wrap "module" none (.mk "function_definition" 0 9 none [leaf "def" 0 3 none, leaf "identifier" 4 5 (some "name"),
    .mk "parameters" 5 7 (some "parameters") [leaf "(" 5 6 none, leaf ")" 6 7 none], leaf ":" 7 8 none,
    wrap "block" (some "body") (wrap "expression_statement" none (leaf "integer" 8 9 none))])

theorem wellFormed_oneLiner : WellFormed (Utf8.encode "def f():0".toList) oneLiner := by
  have hblank : White (Utf8.encode "def f():0".toList) 3 :=
    ⟨' ', 3, by decide, ⟨Utf8.encode "f():0".toList, by decide⟩, by decide, by decide⟩
  refine .wrap (.of_gaps [3] (by simpa using hblank) (by decide) (by decide) (by decide) (by decide) ?_)
  simp only [Node.children, List.forall_mem_cons, List.not_mem_nil, false_imp_iff, implies_true, and_true]
  refine ⟨wellFormed_leaf (by decide), wellFormed_leaf (by decide), ?_, wellFormed_leaf (by decide),
    (wellFormed_leaf (by decide)).wrap.wrap⟩
  refine .of_gaps [] nofun (by decide) (by decide) (by decide) (by decide) ?_
  simp only [Node.children, List.forall_mem_cons, List.not_mem_nil, false_imp_iff, implies_true, and_true]
  exact ⟨wellFormed_leaf (by decide), wellFormed_leaf (by decide)⟩

theorem not_white_zero {c : Char} {cs : List Char} (hc : Json.isSpace c = false) : ¬White (Utf8.encode (c :: cs)) 0 := by
  rintro ⟨d, a, hd, hprefix, hle, -⟩
  obtain rfl := Nat.le_zero.1 hle
  have hhead : [d] <+: c :: cs := Utf8.encode_isPrefix_encode.1 (by simpa using hprefix)
  rw [(List.cons_prefix_cons.1 hhead).1, hc] at hd
  cases hd

/-- Two statements of which only one fits are two chunks. -/
theorem coveredOnce_twoLines : (chunkCodeAst "a\nb".toList twoLines 1).countP (·.Has 0) = 1 :=
  have hwhite : ¬White (Utf8.encode ('a' :: "\nb".toList)) 0 := not_white_zero (by decide)
  have hfits : ∀ c ∈ twoLines.children, (nodeNws (Utf8.encode "a\nb".toList) c : ℤ) ≤ 1 := by decide
  (coveredOnce_iff _ _ _ wellFormed_twoLines (by decide)).2 (.inr ⟨nofun, fun c hc => .whole (.inl (hfits c hc))⟩)
    0 (by decide) hwhite

/-- The head of a function that does not fit is in no chunk. -/
theorem coveredOnce_fails : ¬∀ (content : List Char) (root : Node) (maxChunkChars : ℤ),
    WellFormed (Utf8.encode content) root → root.endByte ≤ (Utf8.encode content).length →
      ∀ p, root.Has p → ¬White (Utf8.encode content) p →
        (chunkCodeAst content root maxChunkChars).countP (·.Has p) = 1 := by
  intro h
  have hwhite : ¬White (Utf8.encode ('d' :: "ef f():0".toList)) 0 := not_white_zero (by decide)
  have hone := h "def f():0".toList oneLiner 4 wellFormed_oneLiner (by decide) 0 (by decide) hwhite
  rw [countP_chunkCodeAst wellFormed_oneLiner hwhite (by decide) (by decide), if_neg] at hone
  · cases hone
  rintro ⟨c, hc, hk⟩
  obtain rfl := List.mem_singleton.1 hc
  -- Of the function only the statement of its body is kept.
  cases hk with
  | whole hint _ =>
    obtain hfits | hdecorated | hnil := hint
    · exact absurd hfits (by decide)
    · exact absurd hdecorated (by decide)
    · exact absurd (congrArg List.length hnil) (by decide)
  | split _ hd hk =>
    obtain rfl := List.mem_singleton.1 hd
    have hstart := (hk.has (wellFormed_leaf (by decide)).wrap).1
    exact absurd hstart (by decide)

end LlmGateway.Rag
