import Mathlib.Data.List.Basic
import OctetMachine.Program

/-!
# Programs in parts

A line feed between two program texts ends the last line of the first, whatever that line is, so the
lines of the whole are those of the parts. The image of the whole is made of the images of the
parts, and an error of the second part is found as many lines further on as the first part has.
-/

namespace OctetMachine.Program

/-- The error of a text that stands behind a number of other lines. -/
def LoadError.behind (n : Nat) : LoadError → LoadError
  | .unreadable path reason => .unreadable path reason
  | .malformed line text cause => .malformed (line + n) text cause
  | .tooLarge length capacity => .tooLarge length capacity

/-- What the line of some number adds to an image. -/
def imageOfLine (number : Nat) (line : List Char) : Except LoadError (List UInt8) :=
  if (code line).isEmpty then .ok []
  else
    match readLiteral (code line) with
    | .error cause => .error (.malformed number (String.ofList (code line)) cause)
    | .ok b => .ok [b]

/-! ## Lines -/

theorem lines_append (t₁ t₂ : List Char) : lines (t₁ ++ '\n' :: t₂) = lines t₁ ++ lines t₂ :=
  List.splitOn_append_cons_self t₁ t₂

/-- A text has one line more than it has line feeds. -/
theorem length_lines (text : List Char) : (lines text).length = text.count '\n' + 1 := by
  induction text with
  | nil => rfl
  | cons c rest ih =>
    rw [lines, List.splitOn_cons_eq_if_modifyHead, List.count_cons]
    split
    next => rw [List.length_cons]; exact congrArg (· + 1) ih
    next => rw [List.length_modifyHead]; exact ih

theorem imageOfLines_cons (number : Nat) (line : List Char) (rest : List (List Char)) :
    imageOfLines number (line :: rest) = do
      let first ← imageOfLine number line
      let others ← imageOfLines (number + 1) rest
      return first ++ others := by
  rw [imageOfLines, imageOfLine]
  split
  next => cases imageOfLines (number + 1) rest <;> rfl
  next =>
    cases readLiteral (code line) with
    | error cause => rfl
    | ok b => cases imageOfLines (number + 1) rest <;> rfl

/-- Lines are numbered through, and the first bad line of all decides the error. -/
theorem imageOfLines_append (number : Nat) (ls₁ ls₂ : List (List Char)) :
    imageOfLines number (ls₁ ++ ls₂) = do
      let first ← imageOfLines number ls₁
      let second ← imageOfLines (number + ls₁.length) ls₂
      return first ++ second := by
  induction ls₁ generalizing number with
  | nil => cases h : imageOfLines number ls₂ <;> simp [imageOfLines, h] <;> rfl
  | cons line rest ih =>
    have hnumber : number + (rest.length + 1) = number + 1 + rest.length := by omega
    rw [List.cons_append, imageOfLines_cons, imageOfLines_cons, ih, List.length_cons, hnumber]
    simp only [bind_assoc, pure_bind, List.append_assoc]

theorem imageOfLine_add (number n : Nat) (line : List Char) :
    imageOfLine (number + n) line = (imageOfLine number line).mapError (.behind n) := by
  simp only [imageOfLine]
  split
  · rfl
  · cases readLiteral (code line) <;> rfl

theorem imageOfLines_add (number n : Nat) (ls : List (List Char)) :
    imageOfLines (number + n) ls = (imageOfLines number ls).mapError (.behind n) := by
  induction ls generalizing number with
  | nil => rfl
  | cons line rest ih =>
    rw [imageOfLines_cons, imageOfLines_cons, imageOfLine_add, Nat.add_right_comm, ih]
    cases imageOfLine number line with
    | error => rfl
    | ok => cases imageOfLines (number + 1) rest <;> rfl

/-- Lines are refused for what one of them holds, and for nothing else. -/
theorem exists_malformed_of_imageOfLines {number : Nat} {ls : List (List Char)} {e : LoadError}
    (h : imageOfLines number ls = .error e) :
    ∃ line text cause, e = .malformed line text cause := by
  induction ls generalizing number with
  | nil => cases h
  | cons line rest ih =>
    rw [imageOfLines] at h
    split at h
    next => exact ih h
    next =>
      split at h
      next cause =>
        cases h
        exact ⟨_, _, _, rfl⟩
      next =>
        cases hrest : imageOfLines (number + 1) rest with
        | error e' =>
          rw [hrest] at h
          cases h
          exact ih hrest
        | ok =>
          rw [hrest] at h
          cases h

/-- The image of two texts with a line feed between them is made of their images. The error of the
first is that of the whole; an error of the second names its line by its place in the whole and is
the same otherwise. -/
theorem image_append (t₁ t₂ : String) :
    (image (t₁ ++ "\n" ++ t₂) = do
      let first ← image t₁
      let second ← (image t₂).mapError (.behind (1 + t₁.toList.count '\n'))
      return first ++ second) ∧
    ∀ e, image t₂ = .error e → ∃ line text cause, e = .malformed line text cause := by
  constructor
  · have hlines : lines (t₁ ++ "\n" ++ t₂).toList = lines t₁.toList ++ lines t₂.toList := by
      rw [String.toList_append, String.toList_append, List.append_assoc]
      exact lines_append t₁.toList t₂.toList
    have hbehind : imageOfLines (1 + (lines t₁.toList).length) (lines t₂.toList) =
        (image t₂).mapError (.behind (1 + t₁.toList.count '\n')) := by
      rw [length_lines, Nat.add_comm (t₁.toList.count '\n'), imageOfLines_add]
      rfl
    rw [image, hlines, imageOfLines_append, hbehind]
    rfl
  · intro e he
    exact exists_malformed_of_imageOfLines he

end OctetMachine.Program
