import Mathlib.Data.List.Basic
import Mathlib.Data.List.Forall2
import Mathlib.Data.List.TakeWhile
import Mathlib.Logic.Relation
import OctetMachine.Proofs.Concatenation

/-!
# The layout of programs

A program text is read line by line, and of a line only its code counts: what stands before a `#`,
freed of white space at its ends. White space around the code, comments and the carriage returns
before line feeds are layout. Texts whose lines differ in layout alone have the same image, or are
refused for the same line, with the same code and for the same reason.
-/

namespace OctetMachine

namespace Text

theorem trimEnd_append_of_blank (text : List Char) {blanks : List Char}
    (h : blanks.all isBlank = true) : trimEnd (text ++ blanks) = trimEnd text := by
  have hnone : trimEnd blanks = [] := by
    induction blanks with
    | nil => rfl
    | cons c rest ih =>
      rw [List.all_cons, Bool.and_eq_true] at h
      change (if isBlank c && (trimEnd rest).isEmpty then [] else c :: trimEnd rest) = []
      rw [ih h.2, h.1]
      rfl
  rw [trimEnd, List.foldr_append]
  exact congrArg (fun rest ↦ List.foldr _ rest text) hnone

theorem trim_append_of_blank (text : List Char) {blanks : List Char}
    (h : blanks.all isBlank = true) : trim (text ++ blanks) = trim text := by
  rw [trim, trim, List.dropWhile_append]
  split
  next hempty =>
    have hnil : blanks.dropWhile isBlank = [] :=
      List.dropWhile_eq_nil_iff.2 (List.all_eq_true.1 h)
    rw [hnil, List.isEmpty_iff.1 hempty]
  next => exact trimEnd_append_of_blank _ h

theorem trim_blank_append {blanks : List Char} (h : blanks.all isBlank = true)
    (text : List Char) : trim (blanks ++ text) = trim text := by
  rw [trim, trim, List.dropWhile_append_of_pos (List.all_eq_true.1 h)]

end Text

namespace Program

open Text (isBlank)

/-- Whether a text is white space within a line. -/
def isSpacing (text : List Char) : Bool := text.all isBlank && !text.contains '\n'

/-- A line without its comment. -/
def uncommented (line : List Char) : List Char := line.takeWhile (· ≠ '#')

/-- One change to the layout of a line. -/
inductive Relayout : List Char → List Char → Prop where
  /-- White space comes before the code. -/
  | before {lead rest spacing : List Char} (hlead : lead.all isBlank = true)
      (hspacing : isSpacing spacing = true) : Relayout (lead ++ rest) (lead ++ spacing ++ rest)
  /-- White space comes behind the code. -/
  | behind {front rest spacing : List Char} (hrest : (uncommented rest).all isBlank = true)
      (hspacing : isSpacing spacing = true) : Relayout (front ++ rest) (front ++ spacing ++ rest)
  /-- White space comes into the comment. -/
  | inside {front rest spacing : List Char} (hcomment : '#' ∈ front)
      (hspacing : isSpacing spacing = true) : Relayout (front ++ rest) (front ++ spacing ++ rest)
  /-- A comment comes behind all that there is. -/
  | remark {line comment : List Char} (hcomment : '\n' ∉ comment) :
      Relayout line (line ++ '#' :: comment)

/-- How a line that is not the last one is ended. -/
inductive LineEnd where
  | feed
  | returnFeed

def LineEnd.text : LineEnd → List Char
  | .feed => ['\n']
  | .returnFeed => ['\r', '\n']

/-- Lines in a row, each but the last with its end. -/
def joined : List (List Char × LineEnd) → List Char
  | [] => []
  | [(line, _)] => line
  | (line, ending) :: next :: rest => line ++ ending.text ++ joined (next :: rest)

/-- A line without the carriage return of its end. -/
def withoutReturn (line : List Char) : List Char :=
  if line.getLast? = some '\r' then line.dropLast else line

/-- The lines of a text in which a line feed ends a line, together with one carriage return before
it, and the last line need not be ended. -/
def endedLines (text : List Char) : List (List Char) :=
  (lines text).dropLast.map withoutReturn ++ (lines text).getLast?.toList.filter (! ·.isEmpty)

/-! ## The code of a line -/

theorem code_eq (line : List Char) : code line = Text.trim (uncommented line) := rfl

theorem uncommented_append_of_mem {front : List Char} (h : '#' ∈ front) (rest : List Char) :
    uncommented (front ++ rest) = uncommented front := by
  rw [uncommented, uncommented, List.takeWhile_append, if_neg]
  intro hlength
  have hall := List.takeWhile_eq_self_iff.1 ((List.takeWhile_prefix _).eq_of_length hlength)
  simpa using hall '#' h

theorem uncommented_append_of_not_mem {front : List Char} (h : '#' ∉ front) (rest : List Char) :
    uncommented (front ++ rest) = front ++ uncommented rest := by
  apply List.takeWhile_append_of_pos
  intro c hc
  simpa using fun heq : c = '#' ↦ h (heq ▸ hc)

theorem not_mem_of_blank {text : List Char} (h : text.all isBlank = true) : '#' ∉ text :=
  fun hmem ↦ absurd (List.all_eq_true.1 h '#' hmem) (by decide)

theorem code_blank_append {lead : List Char} (h : lead.all isBlank = true)
    (rest : List Char) : code (lead ++ rest) = code rest := by
  rw [code_eq, code_eq, uncommented_append_of_not_mem (not_mem_of_blank h),
    Text.trim_blank_append h]

theorem code_append_of_mem {front : List Char} (h : '#' ∈ front) (rest : List Char) :
    code (front ++ rest) = code front := by
  rw [code_eq, uncommented_append_of_mem h, code_eq]

/-- White space and a comment behind the code of a line do not change it. -/
theorem code_append_of_blank (front : List Char) {rest : List Char}
    (h : (uncommented rest).all isBlank = true) : code (front ++ rest) = code front := by
  by_cases hcomment : '#' ∈ front
  · exact code_append_of_mem hcomment rest
  · have hself : uncommented front = front := by
      rw [← List.append_nil front, uncommented_append_of_not_mem hcomment]
      rfl
    rw [code_eq, uncommented_append_of_not_mem hcomment, Text.trim_append_of_blank _ h, code_eq,
      hself]

theorem code_append_return (line : List Char) : code (line ++ ['\r']) = code line :=
  code_append_of_blank line rfl

theorem blank_of_isSpacing {text : List Char} (h : isSpacing text = true) :
    text.all isBlank = true := by
  rw [isSpacing, Bool.and_eq_true] at h
  exact h.1

theorem not_mem_of_isSpacing {text : List Char} (h : isSpacing text = true) : '\n' ∉ text := by
  rw [isSpacing, Bool.and_eq_true] at h
  simpa using h.2

namespace Relayout

variable {line line' : List Char}

theorem code_eq (h : Relayout line line') : code line' = code line := by
  cases h with
  | @before lead rest spacing hlead hspacing =>
    rw [List.append_assoc, code_blank_append hlead, code_blank_append (blank_of_isSpacing hspacing),
      code_blank_append hlead]
  | @behind front rest spacing hrest hspacing =>
    have hspaces : spacing.all isBlank = true := blank_of_isSpacing hspacing
    have hblank : (uncommented (spacing ++ rest)).all isBlank = true := by
      rw [uncommented_append_of_not_mem (not_mem_of_blank hspaces), List.all_append, hspaces, hrest]
      rfl
    rw [List.append_assoc, code_append_of_blank front hblank, code_append_of_blank front hrest]
  | @inside front rest spacing hcomment hspacing =>
    rw [List.append_assoc, code_append_of_mem hcomment, code_append_of_mem hcomment]
  | @remark line comment =>
    exact code_append_of_blank line rfl

/-- No change of layout breaks a line in two. -/
theorem not_mem (h : Relayout line line') (hline : '\n' ∉ line) : '\n' ∉ line' := by
  cases h with
  | before _ hspacing => simpa [not_mem_of_isSpacing hspacing] using hline
  | behind _ hspacing => simpa [not_mem_of_isSpacing hspacing] using hline
  | inside _ hspacing => simpa [not_mem_of_isSpacing hspacing] using hline
  | remark hcomment => simpa [hcomment] using hline

theorem code_eq_of_reflTransGen (h : Relation.ReflTransGen Relayout line line') :
    code line' = code line := by
  induction h with
  | refl => rfl
  | tail _ hlast ih => exact hlast.code_eq.trans ih

theorem not_mem_of_reflTransGen (h : Relation.ReflTransGen Relayout line line')
    (hline : '\n' ∉ line) : '\n' ∉ line' := by
  induction h with
  | refl => exact hline
  | tail _ hlast ih => exact hlast.not_mem ih

end Relayout

/-! ## Lines of one layout and another -/

theorem imageOfLine_congr (number : Nat) {line line' : List Char} (h : code line = code line') :
    imageOfLine number line = imageOfLine number line' := by
  rw [imageOfLine, imageOfLine, h]

theorem imageOfLines_congr (number : Nat) {ls ls' : List (List Char)}
    (h : List.Forall₂ (fun line line' ↦ code line = code line') ls ls') :
    imageOfLines number ls = imageOfLines number ls' := by
  induction h generalizing number with
  | nil => rfl
  | cons hline _ ih => rw [imageOfLines_cons, imageOfLines_cons, imageOfLine_congr number hline, ih]

/-- A carriage return before a line feed is layout of the line in front of it. -/
theorem exists_joined_cons {line : List Char} (hline : '\n' ∉ line) (ending : LineEnd)
    (next : List Char × LineEnd) (rest : List (List Char × LineEnd)) :
    ∃ line', code line' = code line ∧
      lines (joined ((line, ending) :: next :: rest)) = line' :: lines (joined (next :: rest)) := by
  cases ending with
  | feed =>
    refine ⟨line, rfl, ?_⟩
    rw [joined, LineEnd.text, List.append_assoc]
    exact List.splitOn_append_cons_self_of_not_mem hline _
  | returnFeed =>
    have hreturn : '\n' ∉ line ++ ['\r'] := by simpa using hline
    refine ⟨line ++ ['\r'], code_append_return line, ?_⟩
    rw [joined, LineEnd.text, ← List.singleton_append, ← List.append_assoc, List.append_assoc]
    exact List.splitOn_append_cons_self_of_not_mem hreturn _

theorem code_withoutReturn (line : List Char) : code (withoutReturn line) = code line := by
  unfold withoutReturn
  split
  next hlast =>
    obtain ⟨front, rfl⟩ := List.getLast?_eq_some_iff.1 hlast
    rw [List.dropLast_concat, code_append_return]
  next => rfl

/-- The ends of lines may as well be taken off before the lines are read. -/
theorem image_eq_imageOfLines_endedLines (text : String) :
    image text = imageOfLines 1 (endedLines text.toList) := by
  obtain ⟨front, last, hlines⟩ : ∃ front last, lines text.toList = front ++ [last] :=
    ⟨_, _, (List.dropLast_append_getLast (List.splitOn_ne_nil '\n' text.toList)).symm⟩
  have hfront : List.Forall₂ (fun line line' ↦ code line = code line') front
      (front.map withoutReturn) := by
    rw [List.forall₂_map_right_iff, List.forall₂_same]
    exact fun line _ ↦ (code_withoutReturn line).symm
  have hlast : imageOfLines (1 + front.length) [last] =
      imageOfLines (1 + front.length) ([last].filter (! ·.isEmpty)) := by
    cases last <;> rfl
  rw [image, endedLines, hlines, List.dropLast_concat, List.getLast?_concat, imageOfLines_append,
    imageOfLines_append, List.length_map, imageOfLines_congr 1 hfront, hlast]
  rfl

/-- Joined lines are read one by one, however they are ended. -/
theorem imageOfLines_lines_joined (number : Nat) {ls : List (List Char × LineEnd)}
    (h : ∀ p ∈ ls, '\n' ∉ p.1) :
    imageOfLines number (lines (joined ls)) = imageOfLines number (ls.map Prod.fst) := by
  induction ls generalizing number with
  | nil => rfl
  | cons p rest ih =>
    obtain ⟨line, ending⟩ := p
    have hline : '\n' ∉ line := h (line, ending) List.mem_cons_self
    cases rest with
    | nil =>
      have hlines : lines (joined [(line, ending)]) = [line] := List.splitOn_eq_singleton hline
      rw [hlines, List.map_singleton]
    | cons next rest =>
      obtain ⟨line', hcode, hlines⟩ := exists_joined_cons hline ending next rest
      have hrest := ih (number + 1) fun p hp ↦ h p (List.mem_cons_of_mem _ hp)
      rw [hlines, imageOfLines_cons, hrest, imageOfLine_congr number hcode]
      exact (imageOfLines_cons number line _).symm

theorem joined_feed (ls : List (List Char)) :
    joined (ls.map fun line ↦ (line, .feed)) = ['\n'].intercalate ls := by
  induction ls with
  | nil => rfl
  | cons line rest ih =>
    cases rest with
    | nil => exact List.intercalate_singleton.symm
    | cons next rest =>
      rw [List.intercalate_cons_cons, ← ih]
      simp [joined, LineEnd.text]

/-- Changes of layout do not change what a program is read as. Every line may undergo any number of
them, and every line but the last may be ended in either way: the image is the same, or the error
with its line, code and cause. -/
theorem image_of_relayout (ls : List (List Char)) (hls : ∀ line ∈ ls, '\n' ∉ line)
    (ls' : List (List Char × LineEnd))
    (hlayout : List.Forall₂ (fun line p ↦ Relation.ReflTransGen Relayout line p.1) ls ls') :
    image (String.ofList (joined ls')) = image (String.ofList (['\n'].intercalate ls)) := by
  have himage (rows : List (List Char × LineEnd)) (hrows : ∀ p ∈ rows, '\n' ∉ p.1) :
      image (String.ofList (joined rows)) = imageOfLines 1 (rows.map Prod.fst) := by
    rw [image, String.toList_ofList, imageOfLines_lines_joined 1 hrows]
  have hboth : List.Forall₂ (fun line p ↦ '\n' ∉ line ∧ Relation.ReflTransGen Relayout line p.1)
      ls ls' := (List.forall₂_and_left ls ls').2 ⟨hls, hlayout⟩
  have hkept : List.Forall₂ (fun p line ↦ '\n' ∉ p.1 ∧ code p.1 = code line) ls' ls :=
    hboth.flip.imp fun p line h ↦
      ⟨Relayout.not_mem_of_reflTransGen h.2 h.1, Relayout.code_eq_of_reflTransGen h.2⟩
  obtain ⟨hls', hcode⟩ := (List.forall₂_and_left ls' ls).1 hkept
  have hfeeds : ∀ p ∈ ls.map fun line ↦ (line, LineEnd.feed), '\n' ∉ p.1 := by
    rw [List.forall_mem_map]
    exact hls
  have hfirst : (ls.map fun line ↦ (line, LineEnd.feed)).map Prod.fst = ls := by
    rw [List.map_map]
    exact List.map_id ls
  rw [← joined_feed, himage ls' hls', himage _ hfeeds, hfirst]
  apply imageOfLines_congr
  rw [List.forall₂_map_left_iff]
  exact hcode

/-- A line that gets white space at both ends, a comment and a carriage return, one with white space
in its comment, and a bad one, which is still told by its number and its code. -/
theorem image_of_relayout_of_bad_line :
    let ls : List (List Char) := ["101".toList, "#no te".toList, "12".toList]
    let ls' : List (List Char × LineEnd) :=
      [("\u2003101 #five".toList, .returnFeed), ("#no \t\u00A0te".toList, .feed),
        ("\r12\r".toList, .feed)]
    image (String.ofList (joined ls')) = image (String.ofList (['\n'].intercalate ls)) ∧
      image (String.ofList (joined ls')) = .error (.malformed 3 "12" .invalidDigit) := by
  intro ls ls'
  have hfirst : Relation.ReflTransGen Relayout "101".toList "\u2003101 #five".toList := by
    have hbefore : Relayout "101".toList "\u2003101".toList :=
      @Relayout.before [] "101".toList ['\u2003'] (by decide) (by decide)
    have hbehind : Relayout "\u2003101".toList "\u2003101 ".toList :=
      @Relayout.behind "\u2003101".toList [] [' '] (by decide) (by decide)
    have hremark : Relayout "\u2003101 ".toList "\u2003101 #five".toList :=
      @Relayout.remark "\u2003101 ".toList "five".toList (by decide)
    exact ((Relation.ReflTransGen.single hbefore).tail hbehind).tail hremark
  have hsecond : Relation.ReflTransGen Relayout "#no te".toList "#no \t\u00A0te".toList :=
    .single (@Relayout.inside "#no ".toList "te".toList ['\t', '\u00A0'] (by decide) (by decide))
  have hthird : Relation.ReflTransGen Relayout "12".toList "\r12\r".toList := by
    have hbefore : Relayout "12".toList "\r12".toList :=
      @Relayout.before [] "12".toList ['\r'] (by decide) (by decide)
    have hbehind : Relayout "\r12".toList "\r12\r".toList :=
      @Relayout.behind "\r12".toList [] ['\r'] (by decide) (by decide)
    exact (Relation.ReflTransGen.single hbefore).tail hbehind
  have hlayout : List.Forall₂ (fun line p ↦ Relation.ReflTransGen Relayout line p.1) ls ls' :=
    .cons hfirst (.cons hsecond (.cons hthird .nil))
  have hsame := image_of_relayout ls (by decide) ls' hlayout
  refine ⟨hsame, ?_⟩
  rw [hsame]
  decide +kernel

end Program

end OctetMachine
