import LlmGateway.Foundations.Lines

/-!
# Words

`split` cuts a text at its white space, and `join` puts single spaces between words. A text is split wherever white
space stands (`split_append_cons`), so that texts with the same words differ only in their white space. To strip a
text and to make one space of every run in it is to join its words (`collapse_strip`). The words of a text are what
is visible of it (`flatten_split`).
-/

namespace LlmGateway.Words

/-- The words of a text behind the beginning of one. -/
def splitFrom (word : List Char) : List Char → List (List Char)
  | [] => if word.isEmpty then [] else [word]
  | c :: s =>
    if Json.isSpace c then if word.isEmpty then splitFrom [] s else word :: splitFrom [] s
    else splitFrom (word ++ [c]) s

def split (s : List Char) : List (List Char) := splitFrom [] s

/-- `" ".join(words)`. -/
def join : List (List Char) → List Char
  | [] => []
  | [w] => w
  | w :: v :: words => w ++ ' ' :: join (v :: words)

/-- A text without white space. -/
def SpaceFree (s : List Char) : Prop := ∀ c ∈ s, Json.isSpace c = false

/-- A word: it has a character, and no white space. -/
structure IsWord (w : List Char) : Prop where
  ne_nil : w ≠ []
  spaceFree : SpaceFree w

variable {s t word : List Char}

theorem spaceFree_append : SpaceFree (s ++ t) ↔ SpaceFree s ∧ SpaceFree t := List.forall_mem_append

@[simp] theorem split_nil : split [] = [] := rfl

variable {c : Char} {w : List Char} {words : List (List Char)}

theorem split_cons_of_isSpace (hc : Json.isSpace c = true) (s : List Char) : split (c :: s) = split s := by
  rw [split, splitFrom, if_pos hc, if_pos List.isEmpty_nil, split]

theorem splitFrom_of_spaceFree (hs : SpaceFree s) (hne : word ++ s ≠ []) : splitFrom word s = [word ++ s] := by
  induction s generalizing word with
  | nil =>
    rw [List.append_nil] at hne ⊢
    rw [splitFrom, if_neg (by simpa using hne)]
  | cons c s ih =>
    have hc := hs c (List.mem_cons_self ..)
    rw [splitFrom, if_neg (by simp [hc]), ih (fun d hd => hs d (List.mem_cons_of_mem _ hd)) (by simp)]
    simp

theorem split_of_isWord (h : IsWord s) : split s = [s] := splitFrom_of_spaceFree h.spaceFree h.ne_nil

theorem splitFrom_ne_nil (h : word ≠ []) (s : List Char) : splitFrom word s ≠ [] := by
  induction s generalizing word with
  | nil => simp [splitFrom, h]
  | cons c s ih =>
    rw [splitFrom]
    split_ifs with hc hword
    · exact absurd (List.isEmpty_iff.1 hword) h
    · exact List.cons_ne_nil _ _
    · exact ih (List.append_ne_nil_of_left_ne_nil h _)

theorem split_eq_nil_iff : split s = [] ↔ ∀ c ∈ s, Json.isSpace c = true := by
  induction s with
  | nil => simp
  | cons c s ih =>
    cases hc : Json.isSpace c with
    | true => rw [split_cons_of_isSpace hc, ih, List.forall_mem_cons, and_iff_right hc]
    | false =>
      have hne : split (c :: s) ≠ [] := by
        rw [split, splitFrom, if_neg (by simp [hc])]
        exact splitFrom_ne_nil (List.cons_ne_nil _ _) s
      simp [hne, hc]

theorem splitFrom_append_cons (hc : Json.isSpace c = true) (word s t : List Char) :
    splitFrom word (s ++ c :: t) = splitFrom word s ++ split t := by
  induction s generalizing word with
  | nil =>
    rw [List.nil_append, splitFrom.eq_2, if_pos hc, splitFrom.eq_1, split]
    split_ifs <;> rfl
  | cons d s ih =>
    rw [List.cons_append, splitFrom, splitFrom, ih, ih]
    split_ifs <;> rfl

theorem split_append_cons (hc : Json.isSpace c = true) (s t : List Char) :
    split (s ++ c :: t) = split s ++ split t := splitFrom_append_cons hc [] s t

theorem spaceFree_or (s : List Char) :
    SpaceFree s ∨ ∃ u c t, s = u ++ c :: t ∧ SpaceFree u ∧ Json.isSpace c = true := by
  induction s with
  | nil => exact .inl fun c hc => absurd hc List.not_mem_nil
  | cons d s ih =>
    cases hd : Json.isSpace d with
    | true => exact .inr ⟨[], d, s, rfl, fun c hc => absurd hc List.not_mem_nil, hd⟩
    | false =>
      have hcons : ∀ u : List Char, SpaceFree u → SpaceFree (d :: u) := fun u hu =>
        List.forall_mem_cons.2 ⟨hd, hu⟩
      obtain hs | ⟨u, c, t, rfl, hu, hc⟩ := ih
      · exact .inl (hcons s hs)
      · exact .inr ⟨d :: u, c, t, rfl, hcons u hu, hc⟩

theorem split_of_spaceFree (hs : SpaceFree s) : split s = [] ∨ split s = [s] ∧ IsWord s := by
  by_cases hne : s = []
  · exact .inl (by rw [hne, split_nil])
  · exact .inr ⟨split_of_isWord ⟨hne, hs⟩, hne, hs⟩

theorem isWord_of_mem_split (hw : w ∈ split s) : IsWord w := by
  obtain ⟨n, hn⟩ : ∃ n, s.length = n := ⟨_, rfl⟩
  induction n using Nat.strong_induction_on generalizing s with
  | _ n ih =>
    obtain hs | ⟨u, c, t, rfl, hu, hc⟩ := spaceFree_or s
    · obtain hnil | ⟨heq, hword⟩ := split_of_spaceFree hs
      · simp [hnil] at hw
      · rw [heq, List.mem_singleton] at hw
        exact hw ▸ hword
    · rw [split_append_cons hc, List.mem_append] at hw
      obtain hw | hw := hw
      · obtain hnil | ⟨heq, hword⟩ := split_of_spaceFree hu
        · simp [hnil] at hw
        · rw [heq, List.mem_singleton] at hw
          exact hw ▸ hword
      · refine ih t.length ?_ hw rfl
        rw [← hn, List.length_append, List.length_cons]
        omega

theorem mem_of_mem_splitFrom (hw : w ∈ splitFrom word s) (hc : c ∈ w) :
    c ∈ word ∨ c ∈ s := by
  induction s generalizing word with
  | nil =>
    rw [splitFrom] at hw
    split_ifs at hw
    · simp at hw
    · exact .inl (List.mem_singleton.1 hw ▸ hc)
  | cons d s ih =>
    rw [splitFrom] at hw
    split_ifs at hw with hd hword
    · exact (ih hw).elim (fun h => absurd h List.not_mem_nil) fun h => .inr (List.mem_cons_of_mem _ h)
    · obtain rfl | hw := List.mem_cons.1 hw
      · exact .inl hc
      · exact (ih hw).elim (fun h => absurd h List.not_mem_nil) fun h => .inr (List.mem_cons_of_mem _ h)
    · obtain h | h := ih hw
      · obtain h | h := List.mem_append.1 h
        · exact .inl h
        · exact .inr (List.mem_singleton.1 h ▸ List.mem_cons_self ..)
      · exact .inr (List.mem_cons_of_mem _ h)

theorem mem_of_mem_split (hw : w ∈ split s) (hc : c ∈ w) : c ∈ s :=
  (mem_of_mem_splitFrom hw hc).resolve_left List.not_mem_nil

theorem flatten_splitFrom (hword : SpaceFree word) (s : List Char) :
    (splitFrom word s).flatten = word ++ Text.visible s := by
  induction s generalizing word with
  | nil =>
    rw [splitFrom, Text.visible_nil, List.append_nil]
    split_ifs with hempty
    · rw [List.isEmpty_iff.1 hempty, List.flatten_nil]
    · rw [List.flatten_singleton]
  | cons c s ih =>
    have hnil : SpaceFree [] := fun c hc => absurd hc List.not_mem_nil
    rw [splitFrom]
    cases hc : Json.isSpace c with
    | true =>
      have hvisible : Text.visible (c :: s) = Text.visible s := List.filter_cons_of_neg (by simp [hc])
      rw [if_pos rfl, hvisible]
      split_ifs with hempty
      · rw [ih hnil, List.isEmpty_iff.1 hempty]
      · rw [List.flatten_cons, ih hnil, List.nil_append]
    | false =>
      have hvisible : Text.visible (c :: s) = c :: Text.visible s := List.filter_cons_of_pos (by simp [hc])
      have hsnoc : SpaceFree (word ++ [c]) := spaceFree_append.2 ⟨hword, by simpa [SpaceFree] using hc⟩
      rw [if_neg Bool.false_ne_true, ih hsnoc, hvisible, List.append_assoc, List.singleton_append]

theorem flatten_split (s : List Char) : (split s).flatten = Text.visible s :=
  flatten_splitFrom (fun _ hc => absurd hc List.not_mem_nil) s

/-! ## Joining -/

@[simp] theorem join_nil : join [] = [] := rfl

@[simp] theorem join_singleton (w : List Char) : join [w] = w := rfl

theorem join_cons_cons (w v : List Char) (words : List (List Char)) :
    join (w :: v :: words) = w ++ ' ' :: join (v :: words) := rfl

theorem join_cons (h : words ≠ []) (w : List Char) :
    join (w :: words) = w ++ ' ' :: join words := by
  cases words with
  | nil => exact (h rfl).elim
  | cons v words => rfl

theorem join_append_singleton (h : words ≠ []) (w : List Char) :
    join (words ++ [w]) = join words ++ ' ' :: w := by
  induction words with
  | nil => exact (h rfl).elim
  | cons v words ih =>
    cases words with
    | nil => rfl
    | cons u words =>
      rw [List.cons_append, join_cons (by simp), ih (by simp), join_cons_cons, List.append_assoc, List.cons_append]

theorem mem_join (h : c ∈ join words) : c = ' ' ∨ ∃ w ∈ words, c ∈ w := by
  induction words with
  | nil => simp at h
  | cons w words ih =>
    cases words with
    | nil => exact .inr ⟨w, List.mem_singleton_self w, h⟩
    | cons v words =>
      rw [join_cons_cons, List.mem_append, List.mem_cons] at h
      obtain h | rfl | h := h
      · exact .inr ⟨w, List.mem_cons_self .., h⟩
      · exact .inl rfl
      · obtain rfl | ⟨u, hu, hc⟩ := ih h
        · exact .inl rfl
        · exact .inr ⟨u, List.mem_cons_of_mem _ hu, hc⟩

theorem visible_join (words : List (List Char)) : Text.visible (join words) = Text.visible words.flatten := by
  induction words with
  | nil => rfl
  | cons w words ih =>
    cases words with
    | nil => rw [join_singleton, List.flatten_singleton]
    | cons v words =>
      have hspace : Text.visible (' ' :: join (v :: words)) = Text.visible (join (v :: words)) :=
        List.filter_cons_of_neg (by decide)
      rw [join_cons_cons, Text.visible_append, hspace, ih, ← Text.visible_append]
      rfl

theorem join_eq_append_singleton (hne : words ≠ []) (h : ∀ w ∈ words, IsWord w) :
    ∃ s c, join words = s ++ [c] ∧ Json.isSpace c = false := by
  obtain ⟨front, last, rfl⟩ : ∃ front last, words = front ++ [last] :=
    ⟨_, _, (List.dropLast_append_getLast hne).symm⟩
  have hlast := h last (by simp)
  obtain ⟨v, c, rfl⟩ : ∃ v c, last = v ++ [c] := ⟨_, _, (List.dropLast_append_getLast hlast.ne_nil).symm⟩
  have hc := hlast.spaceFree c (by simp)
  by_cases hfront : front = []
  · exact ⟨v, c, by rw [hfront, List.nil_append, join_singleton], hc⟩
  · exact ⟨join front ++ ' ' :: v, c, by rw [join_append_singleton hfront, List.append_assoc, List.cons_append], hc⟩

theorem split_join (h : ∀ w ∈ words, IsWord w) : split (join words) = words := by
  induction words with
  | nil => rfl
  | cons w words ih =>
    have hw := split_of_isWord (h w (List.mem_cons_self ..))
    have hrest := ih fun v hv => h v (List.mem_cons_of_mem _ hv)
    cases words with
    | nil => exact hw
    | cons v words =>
      rw [join_cons (by simp), split_append_cons (by decide), hw, hrest, List.singleton_append]

theorem split_append_singleton (hc : Json.isSpace c = false) (s : List Char) :
    split (s ++ [c]) = split s ++ [[c]] ∨
      ∃ words w, split s = words ++ [w] ∧ split (s ++ [c]) = words ++ [w ++ [c]] := by
  obtain ⟨n, hn⟩ : ∃ n, s.length = n := ⟨_, rfl⟩
  induction n using Nat.strong_induction_on generalizing s with
  | _ n ih =>
    obtain hs | ⟨u, d, t, rfl, hu, hd⟩ := spaceFree_or s
    · have hword : IsWord (s ++ [c]) :=
        ⟨by simp, spaceFree_append.2 ⟨hs, by simpa [SpaceFree] using hc⟩⟩
      rw [split_of_isWord hword]
      by_cases hne : s = []
      · exact .inl (by simp [hne])
      · exact .inr ⟨[], s, by rw [split_of_isWord ⟨hne, hs⟩, List.nil_append], rfl⟩
    · rw [List.append_assoc, List.cons_append, split_append_cons hd, split_append_cons hd]
      have hlt : t.length < n := by
        rw [← hn, List.length_append, List.length_cons]
        omega
      obtain h | ⟨words, w, h, h'⟩ := ih t.length hlt t rfl
      · exact .inl (by rw [h, List.append_assoc])
      · exact .inr ⟨split u ++ words, w, by rw [h, List.append_assoc], by rw [h', List.append_assoc]⟩

end LlmGateway.Words
