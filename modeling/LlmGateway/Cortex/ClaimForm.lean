import LlmGateway.Cortex.Store
import LlmGateway.Foundations.Words
import Mathlib.Data.List.DropRight
import Mathlib.Logic.Relation

/-!
# The normal form of claims

`normalize_claim` takes the punctuation from the end of a claim last, after the white space. Where punctuation stands
alone behind a blank, the blank is left at the end, and a second pass takes it off. `normalizeClaim_normal_iff` says
that these are the claims whose form is not normal, and that all others have a normal form that case, white space and
trailing punctuation do not change.

What is used of `str.lower` and of NFC is collected in `Text.Lawful`.
-/

namespace LlmGateway.Cortex

open Words (IsWord SpaceFree split join)

/-! ## The library's functions -/

/-- `[.!?,;:]`. -/
def isPunct (c : Char) : Bool := ['.', '!', '?', ',', ';', ':'].contains c

namespace Text

/-- `s.lower()`, on characters. -/
def lowerOf (T : Text) (s : List Char) : List Char := (T.lower (String.ofList s)).toList

/-- NFC, on characters. -/
def nfcOf (T : Text) (s : List Char) : List Char := (T.nfc (String.ofList s)).toList

/-- A character that is its own lowercase. -/
def Lowered (T : Text) (c : Char) : Prop := T.lowerOf [c] = [c]

/-- What Unicode says of lowercasing and of NFC: the first is stable, the second keeps what is lowercase and leaves a
prefix of what it gave alone, and both go word by word and pass over the punctuation at the end. -/
structure Lawful (T : Text) : Prop where
  lower_lowered : ∀ s, ∀ c ∈ T.lowerOf s, T.Lowered c
  lower_fixed : ∀ s, (∀ c ∈ s, T.Lowered c) → T.lowerOf s = s
  lower_space : ∀ s c t, Json.isSpace c = true → T.lowerOf (s ++ c :: t) = T.lowerOf s ++ c :: T.lowerOf t
  lower_punct : ∀ s c, isPunct c = true → T.lowerOf (s ++ [c]) = T.lowerOf s ++ [c]
  lower_word : ∀ s, IsWord s → IsWord (T.lowerOf s)
  nfc_lowered : ∀ s, (∀ c ∈ s, T.Lowered c) → ∀ c ∈ T.nfcOf s, T.Lowered c
  nfc_prefix : ∀ s p, p <+: T.nfcOf s → T.nfcOf p = p
  nfc_space : ∀ s t, T.nfcOf (s ++ ' ' :: t) = T.nfcOf s ++ ' ' :: T.nfcOf t
  nfc_punct : ∀ s c, isPunct c = true → T.nfcOf (s ++ [c]) = T.nfcOf s ++ [c]
  nfc_word : ∀ s, IsWord s → IsWord (T.nfcOf s)

end Text

/-! ## Claims -/

/-- The words of a claim in lowercase and NFC. -/
def claimWords (T : Text) (claim : String) : List (List Char) := (split (T.lowerOf claim.toList)).map T.nfcOf

/-- The last of several words is not only punctuation. -/
def Tidy (T : Text) (claim : String) : Prop :=
  ∀ front last, claimWords T claim = front ++ [last] → front ≠ [] → last.all isPunct = false

/-- One difference of form: the case, the white space, or a punctuation mark at the end. -/
inductive FormStep (T : Text) : String → String → Prop
  | case {claim claim' : String} (h : T.lower claim = T.lower claim') : FormStep T claim claim'
  | space {claim claim' : String} (h : split claim.toList = split claim'.toList) : FormStep T claim claim'
  | punct (claim : String) {c : Char} (h : isPunct c = true) : FormStep T claim (claim ++ String.ofList [c])

/-- The claims differ only in case, white space and trailing punctuation, in any mixture. -/
def DifferInForm (T : Text) : String → String → Prop := Relation.EqvGen (FormStep T)

/-! ## White space -/

variable {c : Char} {s t : List Char}

theorem rstrip_cons_of_isSpace (hc : Json.isSpace c = true) (s : List Char) :
    LlmGateway.Text.rstrip (c :: s) =
      if LlmGateway.Text.rstrip s = [] then [] else c :: LlmGateway.Text.rstrip s := by
  split_ifs with hs
  · exact LlmGateway.Text.rstrip_eq_nil_iff.2
      (List.forall_mem_cons.2 ⟨hc, LlmGateway.Text.rstrip_eq_nil_iff.1 hs⟩)
  · exact LlmGateway.Text.rstrip_append_of_ne (s := [c]) hs

theorem collapse_rstrip (s : List Char) :
    collapseWhitespace true (LlmGateway.Text.rstrip s) = join (split s) ∧
      ∀ word, word ≠ [] →
        word ++ collapseWhitespace false (LlmGateway.Text.rstrip s) = join (Words.splitFrom word s) := by
  induction s with
  | nil =>
    refine ⟨rfl, fun word hne => ?_⟩
    simp [LlmGateway.Text.rstrip, collapseWhitespace, Words.splitFrom, hne]
  | cons c s ih =>
    obtain ⟨hspace, hword⟩ := ih
    cases hc : Json.isSpace c with
    | true =>
      have hnil : split s = [] ↔ LlmGateway.Text.rstrip s = [] :=
        Words.split_eq_nil_iff.trans LlmGateway.Text.rstrip_eq_nil_iff.symm
      rw [rstrip_cons_of_isSpace hc, Words.split_cons_of_isSpace hc]
      constructor
      · split_ifs with hs
        · rw [hnil.2 hs, collapseWhitespace, Words.join_nil]
        · rw [collapseWhitespace, if_pos hc, if_pos rfl, hspace]
      · intro word hne
        have hsplit : Words.splitFrom word (c :: s) = word :: split s := by
          rw [Words.splitFrom, if_pos hc, if_neg (by simpa using hne), split]
        rw [hsplit]
        split_ifs with hs
        · rw [hnil.2 hs, collapseWhitespace, List.append_nil, Words.join_singleton]
        · rw [collapseWhitespace, if_pos hc, if_neg Bool.false_ne_true, hspace, Words.join_cons (mt hnil.1 hs)]
    | false =>
      rw [LlmGateway.Text.rstrip_cons_of_not_isSpace hc]
      constructor
      · rw [collapseWhitespace, if_neg (by simp [hc]), split, Words.splitFrom, if_neg (by simp [hc])]
        exact hword [c] (List.cons_ne_nil _ _)
      · intro word hne
        rw [collapseWhitespace, if_neg (by simp [hc]), Words.splitFrom, if_neg (by simp [hc]),
          ← hword _ (List.append_ne_nil_of_left_ne_nil hne _), List.append_assoc, List.singleton_append]

theorem split_lstrip (s : List Char) : split (LlmGateway.Text.lstrip s) = split s := by
  induction s with
  | nil => rfl
  | cons c s ih =>
    rw [LlmGateway.Text.lstrip_cons]
    split_ifs with hc
    · rw [ih, Words.split_cons_of_isSpace hc]
    · rfl

theorem isSpace_of_lstrip_eq_cons (h : LlmGateway.Text.lstrip s = c :: t) :
    Json.isSpace c = false := by
  induction s with
  | nil => cases h
  | cons d s ih =>
    rw [LlmGateway.Text.lstrip_cons] at h
    split_ifs at h with hd
    · exact ih h
    · rw [← (List.cons.inj h).1]
      exact Bool.eq_false_iff.2 hd

theorem collapse_strip (s : List Char) : collapseWhitespace false (LlmGateway.Text.strip s) = join (split s) := by
  rw [LlmGateway.Text.strip, ← split_lstrip s, ← (collapse_rstrip _).1]
  cases hs : LlmGateway.Text.lstrip s with
  | nil => rfl
  | cons c t =>
    have hc := isSpace_of_lstrip_eq_cons hs
    rw [LlmGateway.Text.rstrip_cons_of_not_isSpace hc, collapseWhitespace, collapseWhitespace,
      if_neg (by simp [hc]), if_neg (by simp [hc])]

/-! ## Punctuation -/

theorem stripTrailingPunct_eq (s : List Char) : stripTrailingPunct s = s.rdropWhile isPunct := rfl

theorem isPunct_of_isSpace (h : Json.isSpace c = true) : isPunct c = false := by
  by_contra hp
  simp only [Bool.not_eq_false, isPunct, List.contains_iff_mem, List.mem_cons, List.not_mem_nil, or_false] at hp
  obtain rfl | rfl | rfl | rfl | rfl | rfl := hp <;> exact absurd h (by decide)

theorem rdropWhile_append_of_ne {p : Char → Bool} (h : t.rdropWhile p ≠ []) :
    (s ++ t).rdropWhile p = s ++ t.rdropWhile p := by
  induction t using List.reverseRecOn with
  | nil => exact (h (List.rdropWhile_nil ..)).elim
  | append_singleton t c ih =>
    rw [← List.append_assoc, List.rdropWhile_concat, List.rdropWhile_concat]
    rw [List.rdropWhile_concat] at h
    split_ifs at h ⊢ with hc
    · exact ih h
    · rw [List.append_assoc]

theorem rdropWhile_append_of_all {p : Char → Bool} (h : ∀ c ∈ t, p c = true) :
    (s ++ t).rdropWhile p = s.rdropWhile p := by
  induction t using List.reverseRecOn with
  | nil => rw [List.append_nil]
  | append_singleton t c ih =>
    rw [← List.append_assoc, List.rdropWhile_concat_pos _ _ _ (h c (by simp))]
    exact ih fun d hd => h d (List.mem_append_left _ hd)

/-! ## The form of a claim -/

section Form

variable {T : Text}

/-- A claim in lowercase and NFC, its words single spaces apart. -/
def squeezed (T : Text) (claim : String) : List Char := join (claimWords T claim)

namespace Text.Lawful

theorem nfcOf_nil (hT : T.Lawful) : T.nfcOf [] = [] := hT.nfc_prefix [] [] List.nil_prefix

theorem lowerOf_nil (hT : T.Lawful) : T.lowerOf [] = [] := hT.lower_fixed [] fun _ h => absurd h List.not_mem_nil

theorem nfcOf_join (hT : T.Lawful) (words : List (List Char)) :
    T.nfcOf (join words) = join (words.map T.nfcOf) := by
  induction words with
  | nil => exact hT.nfcOf_nil
  | cons w words ih =>
    cases words with
    | nil => rfl
    | cons v words =>
      rw [Words.join_cons_cons, hT.nfc_space, ih, List.map_cons, List.map_cons, List.map_cons, Words.join_cons_cons]

theorem split_lowerOf (hT : T.Lawful) (s : List Char) : split (T.lowerOf s) = (split s).map T.lowerOf := by
  obtain ⟨n, hn⟩ : ∃ n, s.length = n := ⟨_, rfl⟩
  induction n using Nat.strong_induction_on generalizing s with
  | _ n ih =>
    have hword : ∀ u, SpaceFree u → split (T.lowerOf u) = (split u).map T.lowerOf := by
      intro u hu
      by_cases hne : u = []
      · rw [hne, hT.lowerOf_nil, Words.split_nil, List.map_nil]
      · rw [Words.split_of_isWord ⟨hne, hu⟩, Words.split_of_isWord (hT.lower_word u ⟨hne, hu⟩), List.map_singleton]
    obtain hs | ⟨u, c, t, rfl, hu, hc⟩ := Words.spaceFree_or s
    · exact hword s hs
    · have hlt : t.length < n := by
        rw [← hn, List.length_append, List.length_cons]
        omega
      rw [hT.lower_space u c t hc, Words.split_append_cons hc, Words.split_append_cons hc, hword u hu,
        ih t.length hlt t rfl, List.map_append]

theorem claimWords_eq (hT : T.Lawful) (claim : String) :
    claimWords T claim = (split claim.toList).map fun w => T.nfcOf (T.lowerOf w) := by
  rw [claimWords, hT.split_lowerOf, List.map_map]
  rfl

theorem isWord_claimWords (hT : T.Lawful) {claim : String} {w : List Char} (h : w ∈ claimWords T claim) :
    IsWord w := by
  obtain ⟨v, hv, rfl⟩ := List.mem_map.1 h
  exact hT.nfc_word v (Words.isWord_of_mem_split hv)

theorem toList_normalizeClaim (hT : T.Lawful) (claim : String) :
    (normalizeClaim T claim).toList = (squeezed T claim).rdropWhile isPunct := by
  have hstrip : (Json.strip (T.lower claim)).toList = LlmGateway.Text.strip (T.lowerOf claim.toList) := by
    rw [Json.strip, String.toList_ofList, Text.lowerOf, String.ofList_toList]
    rfl
  have hnfc : (T.nfc (String.ofList (collapseWhitespace false (Json.strip (T.lower claim)).toList))).toList =
      squeezed T claim := by
    rw [hstrip, collapse_strip]
    exact hT.nfcOf_join _
  rw [normalizeClaim, String.toList_ofList, hnfc, stripTrailingPunct_eq]

end Text.Lawful

variable {claim : String}

theorem squeezed_eq (hT : T.Lawful) : squeezed T claim = T.nfcOf (join (split (T.lowerOf claim.toList))) :=
  (hT.nfcOf_join _).symm

theorem squeezed_of_isPrefix (hT : T.Lawful) {p : List Char} (hp : p <+: squeezed T claim) :
    T.nfcOf p = p ∧ squeezed T (String.ofList p) = T.nfcOf (join (split p)) := by
  have hspace : T.Lowered ' ' := by
    have h := hT.lower_space [] ' ' [] (by decide)
    rwa [hT.lowerOf_nil] at h
  have hlowered : ∀ c ∈ squeezed T claim, T.Lowered c := by
    rw [squeezed_eq hT]
    refine hT.nfc_lowered _ fun c hc => ?_
    obtain rfl | ⟨w, hw, hc⟩ := Words.mem_join hc
    · exact hspace
    · exact hT.lower_lowered _ c (Words.mem_of_mem_split hw hc)
  have hfixed : T.lowerOf p = p := hT.lower_fixed p fun c hc => hlowered c (hp.subset hc)
  constructor
  · rw [squeezed_eq hT] at hp
    exact hT.nfc_prefix _ p hp
  · rw [squeezed_eq hT, String.toList_ofList, hfixed]

theorem exists_words_of_tidy (hT : T.Lawful) (h : Tidy T claim) :
    ∃ words, (∀ w ∈ words, IsWord w) ∧ (normalizeClaim T claim).toList = join words := by
  rw [hT.toList_normalizeClaim]
  by_cases hnil : claimWords T claim = []
  · exact ⟨[], fun w hw => absurd hw List.not_mem_nil, by rw [squeezed, hnil, Words.join_nil, List.rdropWhile_nil]⟩
  obtain ⟨front, last, heq⟩ : ∃ front last, claimWords T claim = front ++ [last] :=
    ⟨_, _, (List.dropLast_append_getLast hnil).symm⟩
  have hwords : ∀ w ∈ front ++ [last], IsWord w := fun w hw => hT.isWord_claimWords (heq ▸ hw)
  have hlast := hwords last (by simp)
  by_cases hstripped : last.rdropWhile isPunct = []
  · -- only punctuation: there is no other word
    have hall := List.rdropWhile_eq_nil_iff.1 hstripped
    have hfront : front = [] := by
      by_contra hne
      have hsome := h front last heq hne
      rw [List.all_eq_true.2 hall] at hsome
      cases hsome
    refine ⟨[], fun w hw => absurd hw List.not_mem_nil, ?_⟩
    rw [squeezed, heq, hfront, List.nil_append, Words.join_singleton, hstripped, Words.join_nil]
  · refine ⟨front ++ [last.rdropWhile isPunct], ?_, ?_⟩
    · intro w hw
      obtain hw | hw := List.mem_append.1 hw
      · exact hwords w (List.mem_append_left _ hw)
      · rw [List.mem_singleton.1 hw]
        exact ⟨hstripped, fun c hc => hlast.spaceFree c ((List.rdropWhile_prefix ..).subset hc)⟩
    · rw [squeezed, heq]
      by_cases hfront : front = []
      · rw [hfront, List.nil_append, List.nil_append, Words.join_singleton, Words.join_singleton]
      · have htail : (' ' :: last).rdropWhile isPunct = ' ' :: last.rdropWhile isPunct :=
          rdropWhile_append_of_ne (s := [' ']) hstripped
        rw [Words.join_append_singleton hfront, Words.join_append_singleton hfront,
          rdropWhile_append_of_ne (by rw [htail]; exact List.cons_ne_nil _ _), htail]

theorem exists_words_of_not_tidy (hT : T.Lawful) (h : ¬ Tidy T claim) :
    ∃ words, (∀ w ∈ words, IsWord w) ∧ (normalizeClaim T claim).toList = join words ++ [' '] := by
  simp only [Tidy, not_forall, Bool.not_eq_false] at h
  obtain ⟨front, last, heq, hfront, hall⟩ := h
  refine ⟨front, fun w hw => hT.isWord_claimWords (heq ▸ List.mem_append_left _ hw), ?_⟩
  have hpunct : ∀ c ∈ last, isPunct c = true := List.all_eq_true.1 hall
  rw [hT.toList_normalizeClaim, squeezed, heq, Words.join_append_singleton hfront, List.append_cons,
    rdropWhile_append_of_all hpunct]
  exact List.rdropWhile_concat_neg _ _ _ (by decide)

theorem normalizeClaim_isPrefix (hT : T.Lawful) (claim : String) :
    (normalizeClaim T claim).toList <+: squeezed T claim := by
  rw [hT.toList_normalizeClaim]
  exact List.rdropWhile_prefix ..

theorem normalizeClaim_idempotent_iff (hT : T.Lawful) (claim : String) :
    normalizeClaim T (normalizeClaim T claim) = normalizeClaim T claim ↔ Tidy T claim := by
  have hprefix := normalizeClaim_isPrefix hT claim
  obtain ⟨hnfc, hsqueezed⟩ := squeezed_of_isPrefix hT hprefix
  rw [String.ofList_toList] at hsqueezed
  rw [← String.toList_inj, hT.toList_normalizeClaim (normalizeClaim T claim), hsqueezed]
  by_cases htidy : Tidy T claim
  · refine iff_of_true ?_ htidy
    obtain ⟨words, hwords, heq⟩ := exists_words_of_tidy hT htidy
    rw [heq] at hnfc
    rw [heq, Words.split_join hwords, hnfc, ← heq, hT.toList_normalizeClaim, List.rdropWhile_idempotent]
  · refine iff_of_false (fun hnormal => ?_) htidy
    obtain ⟨words, hwords, heq⟩ := exists_words_of_not_tidy hT htidy
    have hsplit : split (join words ++ [' ']) = words := by
      rw [Words.split_append_cons (by decide), Words.split_join hwords, Words.split_nil, List.append_nil]
    have hfront : T.nfcOf (join words) = join words :=
      (squeezed_of_isPrefix hT ((List.prefix_append ..).trans (heq ▸ hprefix))).1
    rw [heq, hsplit, hfront] at hnormal
    have hle := (List.rdropWhile_prefix (p := isPunct) (l := join words)).length_le
    rw [hnormal, List.length_append, List.length_singleton] at hle
    omega

/-! ### Claims that differ in form -/

/-- Neither white space nor a punctuation mark. -/
def isCore (c : Char) : Bool := !(isPunct c || Json.isSpace c)

/-- What the claims that differ in form have in common. -/
def core (T : Text) (claim : String) : List Char := (squeezed T claim).rdropWhile fun c => !isCore c

theorem claimWords_append_punct (hT : T.Lawful) {c : Char} (hc : isPunct c = true) (claim : String) :
    claimWords T (claim ++ String.ofList [c]) = claimWords T claim ++ [[c]] ∨
      ∃ front last, claimWords T claim = front ++ [last] ∧
        claimWords T (claim ++ String.ofList [c]) = front ++ [last ++ [c]] := by
  have hspace : Json.isSpace c = false := by
    by_contra h
    rw [isPunct_of_isSpace (by simpa using h)] at hc
    cases hc
  have hlower : T.lowerOf (claim ++ String.ofList [c]).toList = T.lowerOf claim.toList ++ [c] := by
    rw [String.toList_append, String.toList_ofList, hT.lower_punct _ c hc]
  rw [claimWords, claimWords, hlower]
  obtain h | ⟨front, last, h, h'⟩ := Words.split_append_singleton hspace (T.lowerOf claim.toList)
  · have hmark : T.nfcOf [c] = [c] := by
      have hmark := hT.nfc_punct [] c hc
      rwa [hT.nfcOf_nil] at hmark
    exact .inl (by rw [h, List.map_append, List.map_singleton, hmark])
  · refine .inr ⟨front.map T.nfcOf, T.nfcOf last, ?_, ?_⟩
    · rw [h, List.map_append, List.map_singleton]
    · rw [h', List.map_append, List.map_singleton, hT.nfc_punct last c hc]

theorem core_append_punct (hT : T.Lawful) {c : Char} (hc : isPunct c = true) (claim : String) :
    core T (claim ++ String.ofList [c]) = core T claim := by
  have hmark : ∀ d ∈ [c], (!isCore d) = true := by simp [isCore, hc]
  have hblank : ∀ d ∈ [' ', c], (!isCore d) = true := by simp [isCore, hc, Json.isSpace]
  rw [core, core, squeezed, squeezed]
  obtain h | ⟨front, last, h, h'⟩ := claimWords_append_punct hT hc claim
  · rw [h]
    by_cases hne : claimWords T claim = []
    · rw [hne, List.nil_append, Words.join_singleton, Words.join_nil]
      exact rdropWhile_append_of_all (s := []) hmark
    · rw [Words.join_append_singleton hne]
      exact rdropWhile_append_of_all hblank
  · rw [h, h']
    by_cases hne : front = []
    · rw [hne, List.nil_append, List.nil_append, Words.join_singleton, Words.join_singleton]
      exact rdropWhile_append_of_all hmark
    · rw [Words.join_append_singleton hne, Words.join_append_singleton hne, ← List.cons_append, ← List.append_assoc]
      exact rdropWhile_append_of_all hmark

theorem core_eq_of_differInForm (hT : T.Lawful) {claim claim' : String} (h : DifferInForm T claim claim') :
    core T claim = core T claim' := by
  induction h with
  | rel claim claim' h =>
    cases h with
    | case h => rw [core, core, squeezed, squeezed, claimWords, claimWords, Text.lowerOf, Text.lowerOf,
        String.ofList_toList, String.ofList_toList, h]
    | space h => rw [core, core, squeezed, squeezed, hT.claimWords_eq, hT.claimWords_eq, h]
    | punct hc => exact (core_append_punct hT hc _).symm
  | refl => rfl
  | symm _ _ _ ih => exact ih.symm
  | trans _ _ _ _ _ ih ih' => exact ih.trans ih'

theorem rdropWhile_rdropWhile_of_imp {p q : Char → Bool} (h : ∀ c, p c = true → q c = true) (s : List Char) :
    (s.rdropWhile p).rdropWhile q = s.rdropWhile q := by
  induction s using List.reverseRecOn with
  | nil => rfl
  | append_singleton s c ih =>
    cases hp : p c with
    | true => rw [List.rdropWhile_concat_pos _ _ _ hp, List.rdropWhile_concat_pos _ _ _ (h c hp), ih]
    | false => rw [List.rdropWhile_concat_neg _ _ _ (by simp [hp])]

theorem core_eq_rdropWhile (hT : T.Lawful) (claim : String) :
    core T claim = (normalizeClaim T claim).toList.rdropWhile fun c => !isCore c := by
  rw [core, hT.toList_normalizeClaim, rdropWhile_rdropWhile_of_imp]
  intro c hc
  simp [isCore, hc]

theorem toList_normalizeClaim_of_tidy (hT : T.Lawful) (h : Tidy T claim) :
    (normalizeClaim T claim).toList = core T claim := by
  rw [core_eq_rdropWhile hT]
  obtain ⟨words, hwords, heq⟩ := exists_words_of_tidy hT h
  refine (List.rdropWhile_eq_self_iff.2 fun hne => ?_).symm
  have hspace : Json.isSpace ((normalizeClaim T claim).toList.getLast hne) = false := by
    have hwords_ne : words ≠ [] := by
      rintro rfl
      exact hne heq
    obtain ⟨s, c, hjoin, hc⟩ := Words.join_eq_append_singleton hwords_ne hwords
    simp only [heq, hjoin, List.getLast_append_singleton]
    exact hc
  have hpunct : isPunct ((normalizeClaim T claim).toList.getLast hne) = false := by
    have hlast := List.rdropWhile_last_not isPunct (squeezed T claim) (by rwa [← hT.toList_normalizeClaim])
    simpa only [← hT.toList_normalizeClaim, Bool.not_eq_true] using hlast
  simp [isCore, hspace, hpunct]

theorem normalizeClaim_eq_iff_tidy (hT : T.Lawful) {claim claim' : String} (h : DifferInForm T claim claim')
    (htidy : Tidy T claim) : normalizeClaim T claim = normalizeClaim T claim' ↔ Tidy T claim' := by
  rw [← String.toList_inj]
  constructor
  · intro heq
    by_contra htidy'
    obtain ⟨words, hwords, hjoin⟩ := exists_words_of_tidy hT htidy
    obtain ⟨words', hwords', hblank⟩ := exists_words_of_not_tidy hT htidy'
    rw [hjoin, hblank] at heq
    -- a text that ends with a word does not end with a blank
    by_cases hne : words = []
    · rw [hne, Words.join_nil] at heq
      exact absurd heq.symm (by simp)
    · obtain ⟨s, c, hlast, hc⟩ := Words.join_eq_append_singleton hne hwords
      rw [hlast] at heq
      obtain ⟨-, hchar⟩ := List.append_inj' heq rfl
      rw [List.singleton_inj.1 hchar] at hc
      exact absurd hc (by decide)
  · intro htidy'
    rw [toList_normalizeClaim_of_tidy hT htidy, toList_normalizeClaim_of_tidy hT htidy',
      core_eq_of_differInForm hT h]

/-- A claim has a normal form just when its last word is not only punctuation behind another word, and the claims with
a normal form that differ in case, white space and trailing punctuation hash equally. -/
theorem normalizeClaim_normal_iff (hT : T.Lawful) :
    (∀ claim, normalizeClaim T (normalizeClaim T claim) = normalizeClaim T claim ↔ Tidy T claim) ∧
    ∀ claim claim', DifferInForm T claim claim' → Tidy T claim →
      (normalizeClaim T claim = normalizeClaim T claim' ↔ Tidy T claim') ∧
      (Tidy T claim' → ∀ entityId, computeClaimHash T entityId claim = computeClaimHash T entityId claim') := by
  refine ⟨normalizeClaim_idempotent_iff hT, fun claim claim' h htidy => ?_⟩
  have hiff := normalizeClaim_eq_iff_tidy hT h htidy
  refine ⟨hiff, fun htidy' entityId => ?_⟩
  rw [computeClaimHash, computeClaimHash, hiff.2 htidy']

end Form

/-! ### ASCII -/

/-- Lowercase on ASCII letters, where NFC changes nothing. -/
def asciiCase : Text := ⟨fun s => String.ofList (s.toList.map Char.toLower), id, id⟩

theorem lowerOf_asciiCase (s : List Char) : asciiCase.lowerOf s = s.map Char.toLower := by
  rw [Text.lowerOf, asciiCase, String.toList_ofList, String.toList_ofList]

theorem nfcOf_asciiCase (s : List Char) : asciiCase.nfcOf s = s := String.toList_ofList

theorem toLower_of_isPunct (h : isPunct c = true) : c.toLower = c := by
  simp only [isPunct, List.contains_iff_mem, List.mem_cons, List.not_mem_nil, or_false] at h
  obtain rfl | rfl | rfl | rfl | rfl | rfl := h <;> rfl

theorem lowered_asciiCase : asciiCase.Lowered c ↔ c.toLower = c := by
  rw [Text.Lowered, lowerOf_asciiCase, List.map_singleton, List.singleton_inj]

theorem lawful_asciiCase : asciiCase.Lawful where
  lower_lowered s c hc := by
    rw [lowerOf_asciiCase] at hc
    obtain ⟨d, -, rfl⟩ := List.mem_map.1 hc
    exact lowered_asciiCase.2 (Json.toLower_toLower d)
  lower_fixed s h := by
    rw [lowerOf_asciiCase]
    exact (List.map_congr_left (g := id) fun c hc => lowered_asciiCase.1 (h c hc)).trans (List.map_id s)
  lower_space s c t hc := by
    rw [lowerOf_asciiCase, lowerOf_asciiCase, lowerOf_asciiCase, List.map_append, List.map_cons, Json.toLower_of_isSpace hc]
  lower_punct s c hc := by
    rw [lowerOf_asciiCase, lowerOf_asciiCase, List.map_append, List.map_singleton, toLower_of_isPunct hc]
  lower_word s hs := by
    rw [lowerOf_asciiCase]
    refine ⟨by simpa using hs.ne_nil, fun c hc => ?_⟩
    obtain ⟨d, hd, rfl⟩ := List.mem_map.1 hc
    exact Json.isSpace_toLower (hs.spaceFree d hd)
  nfc_lowered s h c hc := by
    rw [nfcOf_asciiCase] at hc
    exact h c hc
  nfc_prefix s p _ := nfcOf_asciiCase p
  nfc_space s t := by rw [nfcOf_asciiCase, nfcOf_asciiCase, nfcOf_asciiCase]
  nfc_punct s c _ := by rw [nfcOf_asciiCase, nfcOf_asciiCase]
  nfc_word s hs := by rwa [nfcOf_asciiCase]

theorem normalizeClaim_normal_iff_ascii :
    computeClaimHash asciiCase "project:gateway" "Two  Words" =
      computeClaimHash asciiCase "project:gateway" "two words." := by
  obtain ⟨hnormal, hhash⟩ := normalizeClaim_normal_iff lawful_asciiCase
  have hcase : FormStep asciiCase "Two  Words" "two  words" := .case (by decide +kernel)
  have hspace : FormStep asciiCase "two  words" "two words" := .space (by with_unfolding_all decide)
  have hpunct : FormStep asciiCase "two words" "two words." := .punct "two words" (c := '.') (by decide)
  have hform : DifferInForm asciiCase "Two  Words" "two words." :=
    (Relation.EqvGen.rel _ _ hcase).trans _ _ _ (.trans _ _ _ (.rel _ _ hspace) (.rel _ _ hpunct))
  exact (hhash _ _ hform ((hnormal _).1 (by decide +kernel))).2 ((hnormal _).1 (by decide +kernel)) _

/-- Punctuation behind a blank leaves the blank, which the next pass takes off. -/
theorem blank_stays : ¬ ∀ claim, normalizeClaim asciiCase (normalizeClaim asciiCase claim) =
    normalizeClaim asciiCase claim := by
  intro h
  have hblank := congrArg String.toList (h "done .")
  revert hblank
  with_unfolding_all decide

end LlmGateway.Cortex
