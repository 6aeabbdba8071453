import OctetMachine.JsonText.Number
import OctetMachine.Numeral

/-!
# JSON tokens

A text is a sequence of tokens with white space between them. Reading goes from left to right; where
a word, number or string starts that does not end well, the sequence ends with a broken token that
says why. A character that starts no token is a mark like the brackets, so whoever meets it decides.
-/

namespace OctetMachine.JsonText

/-- The first thing that is wrong with a text. -/
inductive Problem where
  /-- The text is no JSON. -/
  | malformed
  /-- The text ends where more is needed. -/
  | truncated
  /-- The text is JSON so far, but not of the form that is asked for. -/
  | unsuitable
  deriving DecidableEq

inductive Word where
  | true
  | false
  | null
  deriving DecidableEq

inductive Token where
  | mark (c : Char)
  | word (w : Word)
  | number (x : Number)
  /-- A string, with its escapes replaced by what they stand for. -/
  | string (text : List Char)
  /-- A string, if it is quoted, or another token that does not end well. -/
  | broken (quoted : Bool) (problem : Problem)
  deriving DecidableEq

/-- A reading that succeeds does so in each of its two stages. -/
theorem exists_ok_of_bind {α β : Type} {x : Except Problem α} {f : α → Except Problem β} {b : β}
    (h : x >>= f = .ok b) : ∃ a, x = .ok a ∧ f a = .ok b := by
  cases x with
  | error p => cases h
  | ok a => exact ⟨a, rfl, h⟩

theorem exists_ok_of_map {α β : Type} {x : Except Problem α} {f : α → β} {b : β}
    (h : x.map f = .ok b) : ∃ a, x = .ok a ∧ f a = b := by
  cases x with
  | error p => cases h
  | ok a => exact ⟨a, rfl, Except.ok.inj h⟩

/-! ## Strings -/

/-- Reads four hexadecimal digits. The text is cut off if fewer than four bytes are left. -/
def fourHex : List Char → Except Problem (Nat × List Char)
  | a :: b :: c :: d :: rest =>
    match Numeral.hexValue? a, Numeral.hexValue? b, Numeral.hexValue? c, Numeral.hexValue? d with
    | some a, some b, some c, some d => .ok (((a * 16 + b) * 16 + c) * 16 + d, rest)
    | _, _, _, _ => .error .malformed
  | few => .error (if (String.ofList few).utf8ByteSize < 4 then .truncated else .malformed)

/-- Reads a code point in four digits or, beyond the basic plane, as two surrogates. -/
def codePoint (text : List Char) : Except Problem (Char × List Char) :=
  match fourHex text with
  | .error p => .error p
  | .ok (n, rest) =>
    if n < 0xD800 || 0xDFFF < n then .ok (Char.ofNat n, rest)
    else if 0xDC00 ≤ n then .error .malformed
    else
      match rest with
      | [] => .error .truncated
      | ['\\'] => .error .truncated
      | '\\' :: 'u' :: rest =>
        match fourHex rest with
        | .error p => .error p
        | .ok (m, rest) =>
          if 0xDC00 ≤ m && m ≤ 0xDFFF then
            .ok (Char.ofNat (0x10000 + (n - 0xD800) * 0x400 + (m - 0xDC00)), rest)
          else .error .malformed
      | _ => .error .malformed

/-- The character that an escape of one letter stands for. -/
def plainEscape? : Char → Option Char
  | '"' => some '"'
  | '\\' => some '\\'
  | '/' => some '/'
  | 'b' => some '\x08'
  | 'f' => some '\x0c'
  | 'n' => some '\n'
  | 'r' => some '\r'
  | 't' => some '\t'
  | _ => none

/-- Reads what follows a backslash. -/
def escaped : List Char → Except Problem (Char × List Char)
  | [] => .error .truncated
  | 'u' :: rest => codePoint rest
  | c :: rest =>
    match plainEscape? c with
    | none => .error .malformed
    | some e => .ok (e, rest)

theorem length_fourHex {text rest : List Char} {n : Nat} (h : fourHex text = .ok (n, rest)) :
    rest.length + 4 = text.length := by
  unfold fourHex at h
  split at h
  · split at h
    · cases h
      rfl
    · cases h
  · cases h

theorem length_codePoint {text rest : List Char} {c : Char} (h : codePoint text = .ok (c, rest)) :
    rest.length < text.length := by
  unfold codePoint at h
  split at h
  · cases h
  · rename_i n after hn
    have hfirst := length_fourHex hn
    split at h
    · cases h
      omega
    · split at h
      · cases h
      · split at h
        · cases h
        · cases h
        · split at h
          · cases h
          · rename_i m last hm
            have hsecond := length_fourHex hm
            simp only [List.length_cons] at hfirst
            split at h
            · have hrest : last = rest := congrArg Prod.snd (Except.ok.inj h)
              subst hrest
              omega
            · cases h
        · cases h

theorem length_escaped {text rest : List Char} {c : Char} (h : escaped text = .ok (c, rest)) :
    rest.length < text.length := by
  unfold escaped at h
  split at h
  · cases h
  · exact Nat.lt_succ_of_lt (length_codePoint h)
  · split at h
    · cases h
    · cases h
      exact Nat.lt_succ_self _

/-- Reads a string behind its opening quote, to behind the closing one. -/
def quoted (text : List Char) : Except Problem (List Char × List Char) :=
  match text with
  | [] => .error .truncated
  | '"' :: rest => .ok ([], rest)
  | '\\' :: rest =>
    match h : escaped rest with
    | .error p => .error p
    | .ok (c, after) =>
      have := length_escaped h
      (quoted after).map fun (text, rest) ↦ (c :: text, rest)
  | c :: rest =>
    if c < ' ' then .error .malformed
    else (quoted rest).map fun (text, rest) ↦ (c :: text, rest)
termination_by text.length

theorem length_quoted {text rest : List Char} {s : List Char} (h : quoted text = .ok (s, rest)) :
    rest.length < text.length := by
  fun_induction quoted text generalizing s rest with
  | case1 => simp at h
  | case2 rest =>
    obtain ⟨-, rfl⟩ := by simpa using h
    simp
  | case3 => simp at h
  | case4 text c after _ hlt ih =>
    obtain ⟨⟨s', rest'⟩, hq, h⟩ := exists_ok_of_map h
    cases h
    have := ih hq
    simp only [List.length_cons]
    omega
  | case5 => simp at h
  | case6 c text _ _ _ ih =>
    obtain ⟨⟨s', rest'⟩, hq, h⟩ := exists_ok_of_map h
    cases h
    have := ih hq
    simp only [List.length_cons]
    omega

/-! ## Numbers -/

/-- Reads digits, of which there must be one. -/
def someDigits (text : List Char) : Except Problem (List Char × List Char) :=
  match text with
  | [] => .error .truncated
  | c :: rest =>
    if c.isDigit then .ok (c :: rest.takeWhile Char.isDigit, rest.dropWhile Char.isDigit)
    else .error .malformed

/-- Reads the whole part of a number, which has no leading zero. -/
def wholePart (text : List Char) : Except Problem (List Char × List Char) :=
  match someDigits text with
  | .ok ('0' :: _ :: _, _) => .error .malformed
  | other => other

def fractionPart (text : List Char) : Except Problem (Option (List Char) × List Char) :=
  match text with
  | '.' :: rest => (someDigits rest).map fun (digits, rest) ↦ (some digits, rest)
  | _ => .ok (none, text)

/-- Reads the digits of an exponent of the given sign. -/
def exponentDigits (negative : Bool) (text : List Char) : Except Problem (Option Int × List Char) :=
  (someDigits text).map fun (digits, rest) ↦
    let n : Int := Nat.ofDigitChars 10 digits 0
    (some (if negative then -n else n), rest)

/-- Reads the sign and the digits of an exponent. -/
def signedDigits : List Char → Except Problem (Option Int × List Char)
  | '+' :: rest => exponentDigits false rest
  | '-' :: rest => exponentDigits true rest
  | text => exponentDigits false text

def exponentPart (text : List Char) : Except Problem (Option Int × List Char) :=
  match text with
  | 'e' :: rest => signedDigits rest
  | 'E' :: rest => signedDigits rest
  | _ => .ok (none, text)

/-- Reads a number without its sign. -/
def unsignedNumber (negative : Bool) (text : List Char) : Except Problem (Number × List Char) := do
  let (whole, rest) ← wholePart text
  let (fraction, rest) ← fractionPart rest
  let (exponent, rest) ← exponentPart rest
  let x : Number := { negative, whole, fraction, exponent }
  if x.isTooLarge then .error .malformed else .ok (x, rest)

/-- Reads the rest of a word. -/
def wordRest : List Char → List Char → Except Problem (List Char)
  | [], rest => .ok rest
  | _ :: _, [] => .error .truncated
  | e :: expected, c :: rest => if c = e then wordRest expected rest else .error .malformed

theorem length_someDigits {text digits rest : List Char}
    (h : someDigits text = .ok (digits, rest)) :
    rest.length < text.length := by
  unfold someDigits at h
  split at h
  · simp at h
  · rename_i c text
    split at h
    · cases h
      exact Nat.lt_succ_of_le (List.dropWhile_sublist Char.isDigit).length_le
    · cases h

theorem length_wholePart {text digits rest : List Char} (h : wholePart text = .ok (digits, rest)) :
    rest.length < text.length := by
  unfold wholePart at h
  split at h
  · cases h
  · exact length_someDigits h

theorem length_fractionPart {text rest : List Char} {digits : Option (List Char)}
    (h : fractionPart text = .ok (digits, rest)) : rest.length ≤ text.length := by
  unfold fractionPart at h
  split at h
  · obtain ⟨⟨digits', rest'⟩, hd, h⟩ := exists_ok_of_map h
    cases h
    have := length_someDigits hd
    simp only [List.length_cons]
    omega
  · cases h
    exact Nat.le_refl _

theorem length_exponentDigits {negative : Bool} {text rest : List Char} {n : Option Int}
    (h : exponentDigits negative text = .ok (n, rest)) : rest.length < text.length := by
  obtain ⟨⟨digits, rest'⟩, hd, h⟩ := exists_ok_of_map h
  cases h
  exact length_someDigits hd

theorem length_signedDigits {text rest : List Char} {n : Option Int}
    (h : signedDigits text = .ok (n, rest)) : rest.length < text.length := by
  unfold signedDigits at h
  split at h
  · exact Nat.lt_succ_of_lt (length_exponentDigits h)
  · exact Nat.lt_succ_of_lt (length_exponentDigits h)
  · exact length_exponentDigits h

theorem length_exponentPart {text rest : List Char} {n : Option Int}
    (h : exponentPart text = .ok (n, rest)) : rest.length ≤ text.length := by
  unfold exponentPart at h
  split at h
  · exact Nat.le_succ_of_le (Nat.le_of_lt (length_signedDigits h))
  · exact Nat.le_succ_of_le (Nat.le_of_lt (length_signedDigits h))
  · cases h
    exact Nat.le_refl _

theorem length_unsignedNumber {negative : Bool} {text rest : List Char} {x : Number}
    (h : unsignedNumber negative text = .ok (x, rest)) : rest.length < text.length := by
  obtain ⟨⟨whole, afterWhole⟩, hw, h⟩ := exists_ok_of_bind h
  obtain ⟨⟨fraction, afterFraction⟩, hf, h⟩ := exists_ok_of_bind h
  obtain ⟨⟨exponent, afterExponent⟩, he, h⟩ := exists_ok_of_bind h
  have hwhole := length_wholePart hw
  have hfraction := length_fractionPart hf
  have hexponent := length_exponentPart he
  dsimp only at h
  split at h
  · cases h
  · cases h
    omega

theorem length_wordRest {expected text rest : List Char} (h : wordRest expected text = .ok rest) :
    rest.length ≤ text.length := by
  fun_induction wordRest expected text with
  | case1 => simp_all
  | case2 => simp at h
  | case3 _ _ _ ih =>
    have := ih h
    simp
    omega
  | case4 => simp at h

/-! ## Texts -/

/-- The characters that may stand between tokens. -/
def isSpace (c : Char) : Bool := c == ' ' || c == '\t' || c == '\n' || c == '\r'

/-- What a character starts. -/
inductive Start where
  | space
  | quote
  | minus
  | digit
  | word (w : Word) (rest : List Char)
  | mark

def startOf (c : Char) : Start :=
  if isSpace c then .space
  else if c.isDigit then .digit
  else
    match c with
    | '"' => .quote
    | '-' => .minus
    | 't' => .word .true ['r', 'u', 'e']
    | 'f' => .word .false ['a', 'l', 's', 'e']
    | 'n' => .word .null ['u', 'l', 'l']
    | _ => .mark

/-- The tokens of a text, up to the first that does not end well. -/
def tokens (text : List Char) : List Token :=
  match text with
  | [] => []
  | c :: rest =>
    match startOf c with
    | .space => tokens rest
    | .mark => .mark c :: tokens rest
    | .quote =>
      match h : quoted rest with
      | .error p => [.broken true p]
      | .ok (s, after) =>
        have := length_quoted h
        .string s :: tokens after
    | .minus =>
      match h : unsignedNumber true rest with
      | .error p => [.broken false p]
      | .ok (x, after) =>
        have := length_unsignedNumber h
        .number x :: tokens after
    | .digit =>
      match h : unsignedNumber false (c :: rest) with
      | .error p => [.broken false p]
      | .ok (x, after) =>
        have := length_unsignedNumber h
        .number x :: tokens after
    | .word w expected =>
      match h : wordRest expected rest with
      | .error p => [.broken false p]
      | .ok after =>
        have := length_wordRest h
        .word w :: tokens after
termination_by text.length
decreasing_by
  all_goals
    simp only [List.length_cons] at *
    omega

end OctetMachine.JsonText
