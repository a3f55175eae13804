import Mathlib.Data.List.Basic

/-!
# Streams with a position for writing

What is written goes over the text from the position on, and behind its end.
A stream that was moved back shows what was there until it is written over.
-/

namespace OverwritingStream

structure Stream (Letter : Type) where
  text : List Letter
  put : Nat
  deriving DecidableEq, Repr

variable {Letter : Type}

namespace Stream

def write (s : Stream Letter) (letters : List Letter) : Stream Letter where
  text := s.text.take s.put ++ letters ++ s.text.drop (s.put + letters.length)
  put := s.put + letters.length

/-- Move so many letters back. -/
def seekBack (s : Stream Letter) (letters : Nat) : Stream Letter :=
  { s with put := s.put - letters }

/-- A stream that is at the end of its text. -/
def atEnd (text : List Letter) : Stream Letter where
  text := text
  put := text.length

theorem write_atEnd (text letters : List Letter) :
    (atEnd text).write letters = atEnd (text ++ letters) := by
  simp [atEnd, write]

theorem within_write {s : Stream Letter} (within : s.put ≤ s.text.length)
    (letters : List Letter) : (s.write letters).put ≤ (s.write letters).text.length := by
  simp only [write, List.length_append, List.length_take, List.length_drop]
  omega

theorem write_nil (s : Stream Letter) : s.write [] = s := by
  simp [write]

theorem write_write (s : Stream Letter) (first second : List Letter)
    (within : s.put ≤ s.text.length) :
    (s.write first).write second = s.write (first ++ second) := by
  have length : (s.text.take s.put ++ first).length = s.put + first.length := by
    rw [List.length_append, List.length_take, Nat.min_eq_left within]
  have kept : (s.text.take s.put ++ first ++ s.text.drop (s.put + first.length)).take
      (s.put + first.length) = s.text.take s.put ++ first := List.take_left' length
  have passed : (s.text.take s.put ++ first ++ s.text.drop (s.put + first.length)).drop
      (s.put + first.length + second.length) =
        s.text.drop (s.put + first.length + second.length) := by
    rw [← List.drop_drop, List.drop_left' length, List.drop_drop]
  unfold write
  dsimp only
  rw [kept, passed]
  simp only [List.length_append, List.append_assoc, Nat.add_assoc]

/-- What is written over the last letters of a text, and is no shorter, leaves
nothing of them. -/
theorem seekBack_write {text last letters : List Letter} (covers : last.length ≤ letters.length) :
    ((atEnd (text ++ last)).seekBack last.length).write letters = atEnd (text ++ letters) := by
  have put : (text ++ last).length - last.length = text.length := by
    rw [List.length_append, Nat.add_sub_cancel]
  have gone : (text ++ last).drop (text.length + letters.length) = [] := by
    rw [List.drop_eq_nil_iff, List.length_append]
    omega
  unfold atEnd seekBack write
  dsimp only
  rw [put, gone, List.take_left, List.append_nil, List.length_append]

/-- A loop that writes one thing over and over. -/
theorem foldl_write {Turn : Type} {s : Stream Letter} (within : s.put ≤ s.text.length)
    (letters : List Letter) (turns : List Turn) :
    turns.foldl (fun s _ => s.write letters) s = s.write (turns.flatMap fun _ => letters) := by
  induction turns generalizing s with
  | nil => exact (write_nil s).symm
  | cons turn rest ih =>
      rw [List.foldl_cons, ih (within_write within letters), write_write s _ _ within,
        List.flatMap_cons]

/-- A loop that writes each piece with a separator behind it. -/
theorem foldl_write_atEnd {Piece : Type} (body : Stream Letter → Piece → Stream Letter)
    (written : Piece → List Letter)
    (writes : ∀ text piece, body (atEnd text) piece = atEnd (text ++ written piece))
    (pieces : List Piece) (text : List Letter) :
    pieces.foldl body (atEnd text) = atEnd (text ++ pieces.flatMap written) := by
  induction pieces generalizing text with
  | nil => simp
  | cons piece rest ih => rw [List.foldl_cons, writes, ih, List.flatMap_cons, List.append_assoc]

end Stream

/-- A separator behind each piece is one between them and one more. -/
theorem flatMap_separated (separator : List Letter) {pieces : List (List Letter)}
    (some : pieces ≠ []) :
    (pieces.flatMap fun piece => piece ++ separator) =
      separator.intercalate pieces ++ separator := by
  induction pieces with
  | nil => exact absurd rfl some
  | cons piece rest ih =>
      cases rest with
      | nil => simp
      | cons next rest =>
          rw [List.flatMap_cons, ih (List.cons_ne_nil next rest), List.intercalate_cons_cons,
            List.append_assoc, List.append_assoc, List.append_assoc]

end OverwritingStream
