import LlmGateway.DurableIo.Atomic

/-!
# What an edit leaves of a file

A call that nothing disturbs (`alone`) and a transform that acts on a part of the text: the bytes in front of the part
and behind it stay when the file is well-formed UTF-8, whatever the transform and the error handler are. A handler that
raises keeps any other file from being written. One that does not has the file written anew from what it put in place
of the ill-formed bytes, so that not even the transform that changes nothing leaves the file as it was
(`preserves_iff`).
-/

namespace LlmGateway.DurableIo

/-! ## A call that nothing disturbs -/

section

variable (sha256 : List UInt8 → String)

/-- The next `n` statements of the call, up to its return. -/
def proceed (r : Request) : ℕ → State Unit → State Unit
  | 0, s => s
  | n + 1, s =>
    match s.holder with
    | none => s
    | some (i, p) => proceed r n (advance sha256 r s i p)

/-- The call alone, on a file with this content. -/
def alone (r : Request) (raw : List UInt8) : State Unit :=
  proceed sha256 r 7 ((State.start (some raw)).goto () .locked)

variable {sha256} {r : Request} {raw : List UInt8}

theorem run_proceed (n : ℕ) (s : State Unit) :
    ∃ as, (rmwSystem sha256 fun _ => r).Run s as (proceed sha256 r n s) := by
  induction n generalizing s with
  | zero => exact ⟨[], .nil s⟩
  | succ n ih =>
    rw [proceed]
    split
    · exact ⟨[], .nil s⟩
    · rename_i i p hp
      obtain ⟨as, hrun⟩ := ih (advance sha256 r s i p)
      refine ⟨.advance :: as, .cons ?_ hrun⟩
      change step sha256 (fun _ => r) s .advance = _
      rw [step, hp, Option.map_some]

theorem run_alone : ∃ as, (rmwSystem sha256 fun _ => r).Run (.start (some raw)) (.lock () :: as) (alone sha256 r raw) := by
  obtain ⟨as, hrun⟩ : ∃ as, (rmwSystem sha256 fun _ => r).Run ((State.start (some raw)).goto () .locked) as
      (alone sha256 r raw) := run_proceed 7 _
  exact ⟨as, .cons rfl hrun⟩

theorem alone_of_ok {before after : List Char} (h : r.apply sha256 (some raw) = .ok (before, after)) :
    (alone sha256 r raw).holder = none ∧ (alone sha256 r raw).dest = some (Utf8.encode after) := by
  simp [alone, proceed, advance, State.start, State.goto, State.unlink, State.finish, actualSha256, h]

theorem alone_of_error {e : Error} (h : r.apply sha256 (some raw) = .error e) :
    (alone sha256 r raw).holder = none ∧ (alone sha256 r raw).dest = some raw := by
  simp [alone, proceed, advance, State.start, State.goto, State.finish, h]

/-! ## What stays -/

variable (sha256 r raw)

/-- The call gives another digest than that of the file. -/
def Request.Refused : Prop :=
  r.expectedSha256.any (fun expected => !sha256HexEqual (some (sha256 raw)) (some expected)) = true

/-- The bytes in front of a part and behind it are the same, whatever the part has become. -/
def Outside (front back : List Char) (raw raw' : List UInt8) : Prop :=
  ∃ part part', raw = Utf8.encode front ++ part ++ Utf8.encode back ∧
    raw' = Utf8.encode front ++ part' ++ Utf8.encode back

/-- A file is not changed outside the part of its text that a transform acts on, and not at all when the part stays. -/
def Preserves : Prop :=
  ∀ transform front part part' back, Utf8.decodeWith r.encodingErrors raw = some (front ++ part ++ back) →
    transform (front ++ part ++ back) = some (front ++ part' ++ back) →
    ∃ raw', (alone sha256 { r with transform := transform } raw).dest = some raw' ∧
      (raw' ≠ raw → Outside front back raw raw') ∧ (part' = part → raw' = raw)

variable {sha256 r raw}

theorem apply_of_refused (h : r.Refused sha256 raw) (transform : List Char → Option (List Char)) :
    ∃ e, ({ r with transform := transform } : Request).apply sha256 (some raw) = .error e := ⟨_, if_pos h⟩

theorem apply_of_read (h : ¬r.Refused sha256 raw) {before after : List Char}
    (hread : Utf8.decodeWith r.encodingErrors raw = some before) {transform : List Char → Option (List Char)}
    (htransform : transform before = some after) :
    ({ r with transform := transform } : Request).apply sha256 (some raw) = .ok (before, after) := by
  refine (if_neg h).trans ?_
  rw [Option.getD_some, hread]
  simp only [htransform]

/-- **Untouched bytes.** The file keeps the bytes that the transform does not act on just when the call is refused, the
handler raises, or the file is well-formed UTF-8. -/
theorem preserves_iff (sha256 : List UInt8 → String) (r : Request) (raw : List UInt8) : Preserves sha256 r raw ↔
    r.Refused sha256 raw ∨ Utf8.decodeWith r.encodingErrors raw = none ∨ ∃ text, raw = Utf8.encode text := by
  by_cases hrefused : r.Refused sha256 raw
  · refine iff_of_true (fun transform front part part' back _ _ => ?_) (.inl hrefused)
    obtain ⟨e, happly⟩ := apply_of_refused hrefused transform
    exact ⟨raw, (alone_of_error happly).2, fun hne => (hne rfl).elim, fun _ => rfl⟩
  rw [or_iff_right hrefused]
  constructor
  · intro h
    cases hread : Utf8.decodeWith r.encodingErrors raw with
    | none => exact .inl rfl
    | some text =>
      -- The transform that changes nothing has the text encoded.
      have hwhole : Utf8.decodeWith r.encodingErrors raw = some (text ++ [] ++ []) := by simpa using hread
      obtain ⟨raw', hdest, -, hsame⟩ := h some text [] [] [] hwhole rfl
      have happly : ({ r with transform := some } : Request).apply sha256 (some raw) = .ok (text ++ [] ++ [], _) :=
        apply_of_read hrefused hwhole rfl
      have halone := (alone_of_ok happly).2
      rw [hdest, hsame rfl] at halone
      exact .inr ⟨_, Option.some.inj halone⟩
  · rintro (hraises | ⟨text, rfl⟩) transform front part part' back hread htransform
    · rw [hraises] at hread
      cases hread
    · refine ⟨_, (alone_of_ok (apply_of_read hrefused hread htransform)).2, fun _ => ?_, fun hpart => ?_⟩
      · rw [Utf8.decodeWith_encode, Option.some.injEq] at hread
        refine ⟨Utf8.encode part, Utf8.encode part', ?_, ?_⟩
        · rw [hread, Utf8.encode_append, Utf8.encode_append]
        · rw [Utf8.encode_append, Utf8.encode_append]
      · rw [Utf8.decodeWith_encode, Option.some.injEq] at hread
        rw [hread, hpart]

/-- A call that may change nothing. -/
def leaveAlone : Request := ⟨some, none, false, Utf8.replace⟩

/-- A byte that is no text is overwritten by a replacement character. -/
theorem preserves_fails : ¬Preserves dump leaveAlone [255] := by
  intro h
  have hread : Utf8.decodeWith Utf8.replace [255] = some ['\ufffd'] := by
    rw [Utf8.decodeWith, show [255].toByteArray.utf8DecodeChar? 0 = none by decide]
    simp [Utf8.replace, Utf8.illFormedLength, Utf8.decodeWith]
  obtain ⟨raw', hdest, -, hsame⟩ := h some ['\ufffd'] [] [] [] hread rfl
  have hopen : ¬leaveAlone.Refused dump [255] := by simp [Request.Refused, leaveAlone]
  have happly : ({ leaveAlone with transform := some } : Request).apply dump (some [255]) = .ok (['\ufffd'], ['\ufffd']) :=
    apply_of_read hopen hread rfl
  have halone := (alone_of_ok happly).2
  rw [hdest, hsame rfl] at halone
  exact absurd (Option.some.inj halone) (by decide)

end

end LlmGateway.DurableIo
