import Mathlib.Data.List.Infix

/-!
# Framings of a stream

A framing says how the next frame is cut off the front of the symbols received so far: the frame and
what stands behind it, or nothing while the frame is incomplete. `split` cuts off every complete frame
and `feed` does so chunk by chunk, keeping the incomplete rest for the next chunk.

Since a frame that has been cut does not depend on what follows (`cut_append`), splitting a longer
stream continues splitting the shorter one (`split_append`), and so `feed` does not depend on the chunks
(`feed_eq_split`). `split_flatten` is the rule for streams that are written frame by frame.
-/

namespace LlmGateway

/-- How the next frame is cut off a stream. -/
structure Framing (β α : Type*) where
  /-- The first frame and the symbols behind it, when the frame is complete. -/
  cut : List β → Option (α × List β)
  length_lt {b r : List β} {a : α} : cut b = some (a, r) → r.length < b.length
  cut_append {b r : List β} {a : α} (c : List β) : cut b = some (a, r) → cut (b ++ c) = some (a, r ++ c)

namespace Framing

variable {β α : Type*} (F : Framing β α)

/-- All complete frames of a stream, and the incomplete rest. -/
def split (b : List β) : List α × List β :=
  match _h : F.cut b with
  | none => ([], b)
  | some (a, r) => (a :: (split r).1, (split r).2)
  termination_by b.length
  decreasing_by all_goals exact F.length_lt _h

variable {F}

theorem split_of_none {b : List β} (h : F.cut b = none) : F.split b = ([], b) := by
  rw [split]
  split
  · rfl
  · next h' => simp [h] at h'

theorem split_of_some {b r : List β} {a : α} (h : F.cut b = some (a, r)) :
    F.split b = (a :: (F.split r).1, (F.split r).2) := by
  rw [split]
  split
  · next h' => simp [h] at h'
  · next a' r' h' =>
    rw [h, Option.some.injEq, Prod.mk.injEq] at h'
    obtain ⟨rfl, rfl⟩ := h'
    rfl

variable (F)

theorem frameInduction {motive : List β → Prop} (none : ∀ b, F.cut b = none → motive b)
    (some : ∀ b a r, F.cut b = some (a, r) → motive r → motive b) (b : List β) : motive b := by
  induction hn : b.length using Nat.strong_induction_on generalizing b with
  | _ n ih =>
    match h : F.cut b with
    | .none => exact none b h
    | .some (a, r) => exact some b a r h (ih r.length (hn ▸ F.length_lt h) r rfl)

theorem cut_split (b : List β) : F.cut (F.split b).2 = none := by
  induction b using F.frameInduction with
  | none b h => rwa [split_of_none h]
  | some b a r h ih => rwa [split_of_some h]

theorem split_append (b c : List β) :
    F.split (b ++ c) =
      ((F.split b).1 ++ (F.split ((F.split b).2 ++ c)).1, (F.split ((F.split b).2 ++ c)).2) := by
  induction b using F.frameInduction with
  | none b h => rw [split_of_none h, List.nil_append]
  | some b a r h ih =>
    rw [split_of_some (F.cut_append c h), split_of_some h, ih, List.cons_append]

/-- Cut the frames off a stream that arrives in chunks, `b` being left over from before. -/
def feed (b : List β) : List (List β) → List α × List β
  | [] => ([], b)
  | c :: cs => ((F.split (b ++ c)).1 ++ (feed (F.split (b ++ c)).2 cs).1, (feed (F.split (b ++ c)).2 cs).2)

theorem feed_eq_split {b : List β} (hb : F.cut b = none) (cs : List (List β)) :
    F.feed b cs = F.split (b ++ cs.flatten) := by
  induction cs generalizing b with
  | nil => rw [feed, List.flatten_nil, List.append_nil, split_of_none hb]
  | cons c cs ih =>
    rw [feed, ih (F.cut_split _), List.flatten_cons, ← List.append_assoc, F.split_append (b ++ c)]

theorem split_flatten {enc : α → List β} {as : List α}
    (henc : ∀ a ∈ as, ∀ c, F.cut (enc a ++ c) = some (a, c)) (r : List β) :
    F.split ((as.map enc).flatten ++ r) = (as ++ (F.split r).1, (F.split r).2) := by
  induction as with
  | nil => rw [List.map_nil, List.flatten_nil, List.nil_append, List.nil_append]
  | cons a as ih =>
    have hcut := henc a List.mem_cons_self ((as.map enc).flatten ++ r)
    rw [List.map_cons, List.flatten_cons, List.append_assoc, split_of_some hcut,
      ih fun a' ha' => henc a' (List.mem_cons_of_mem a ha'), List.cons_append]

end Framing

end LlmGateway
