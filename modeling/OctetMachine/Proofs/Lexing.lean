import OctetMachine.Proofs.Document
import OctetMachine.Proofs.Magnitude

/-!
# Tokens of a tree

Reading the text of a tree gives the tokens that its parts stand for. A string that stands for
nothing and a number beyond the floating-point range end the tokens. Only the first token is found
of an array or an object, as readers that want none go no further.
-/

namespace OctetMachine.JsonText

/-! ## Readings that succeed -/

theorem toOption_map {ε α β : Type} (x : Except ε α) (f : α → β) :
    (x.map f).toOption = x.toOption.map f := by
  cases x <;> rfl

theorem toOption_bind {ε α β : Type} (x : Except ε α) (f : α → Except ε β) :
    (x >>= f).toOption = x.toOption.bind fun a ↦ (f a).toOption := by
  cases x <;> rfl

/-! ## Strings -/

theorem hexValue?_char (d : HexDigit) : Numeral.hexValue? d.char = some d.value.val := by
  obtain ⟨value, capital⟩ := d
  revert value capital
  decide

theorem fourHex_text (u : CodeUnit) (rest : List Char) :
    fourHex (u.text ++ rest) = .ok (u.value, rest) := by
  simp only [CodeUnit.text, List.cons_append, List.nil_append, fourHex, hexValue?_char]
  congr 2
  simp only [CodeUnit.value]
  omega

/-- A code unit stands alone unless it is one of a pair. -/
theorem not_surrogate_iff (u : CodeUnit) :
    u.value < 0xD800 ∨ 0xDFFF < u.value ↔ ¬ u.IsHigh ∧ ¬ u.IsLow := by
  simp only [CodeUnit.IsHigh, CodeUnit.IsLow]
  omega

theorem codePoint_text (u : CodeUnit) (rest : List Char) (hhigh : ¬ u.IsHigh) (hlow : ¬ u.IsLow) :
    codePoint (u.text ++ rest) = .ok (Char.ofNat u.value, rest) := by
  simp [codePoint, fourHex_text, not_surrogate_iff, hhigh, hlow]

theorem codePoint_of_isLow {u : CodeUnit} (rest : List Char) (h : u.IsLow) :
    codePoint (u.text ++ rest) = .error .malformed := by
  simp [codePoint, fourHex_text, not_surrogate_iff, h, h.1]

theorem codePoint_of_isHigh {u : CodeUnit} (v : CodeUnit) (rest : List Char) (h : u.IsHigh) :
    codePoint (u.text ++ '\\' :: 'u' :: (v.text ++ rest)) =
      if v.IsLow then .ok (Char.ofNat (pairValue u v), rest) else .error .malformed := by
  have hfirst : ¬ 0xDC00 ≤ u.value := Nat.not_le_of_lt h.2
  have hsecond : (0xDC00 ≤ v.value ∧ v.value ≤ 0xDFFF) ↔ v.IsLow := by
    simp only [CodeUnit.IsLow]
    omega
  simp only [codePoint, fourHex_text, Bool.or_eq_true, Bool.and_eq_true, decide_eq_true_eq,
    not_surrogate_iff, h, not_true_eq_false, false_and, hfirst, hsecond, if_false]
  rfl

theorem codePoint_of_unpaired {u : CodeUnit} {rest : List Char} (h : u.IsHigh)
    (hrest : ∀ after, rest ≠ '\\' :: 'u' :: after) :
    ∃ p, codePoint (u.text ++ rest) = .error p := by
  have hfirst : ¬ 0xDC00 ≤ u.value := Nat.not_le_of_lt h.2
  simp only [codePoint, fourHex_text, Bool.or_eq_true, decide_eq_true_eq, not_surrogate_iff, h,
    not_true_eq_false, false_and, hfirst, if_false]
  split
  · exact ⟨_, rfl⟩
  · exact ⟨_, rfl⟩
  · exact absurd rfl (hrest _)
  · exact ⟨_, rfl⟩

theorem escaped_sign (e : Escape) (rest : List Char) :
    escaped (e.sign :: rest) = .ok (e.char, rest) := by
  cases e <;> rfl

theorem escaped_unit (rest : List Char) : escaped ('u' :: rest) = codePoint rest := rfl

theorem quoted_plain {c : Char} (h : IsPlain c) (rest : List Char) :
    quoted (c :: rest) = (quoted rest).map fun (text, rest) ↦ (c :: text, rest) := by
  rw [quoted]
  · exact if_neg (Char.not_lt.mpr h.1)
  · exact h.2.1
  · exact h.2.2

theorem quoted_of_escaped {rest after : List Char} {c : Char} (h : escaped rest = .ok (c, after)) :
    quoted ('\\' :: rest) = (quoted after).map fun (text, rest) ↦ (c :: text, rest) := by
  rw [quoted]
  split
  · simp_all
  · simp_all

theorem quoted_of_escaped_error {rest : List Char} {p : Problem} (h : escaped rest = .error p) :
    quoted ('\\' :: rest) = .error p := by
  rw [quoted]
  split
  · simp_all
  · simp_all

theorem inside_cons (p : Piece) (q : Quotation) :
    Quotation.inside (p :: q) = p.text ++ Quotation.inside q := rfl

/-- A character is put before what the reading of the rest gives. -/
theorem toOption_map_cons (c : Char) {x : Except Problem (List Char × List Char)}
    {text? : Option (List Char)} {rest : List Char} (h : x.toOption = text?.map (·, rest)) :
    (x.map fun (text, rest) ↦ (c :: text, rest)).toOption =
      (text?.map (c :: ·)).map (·, rest) := by
  rw [toOption_map, h, Option.map_map, Option.map_map]
  rfl

theorem toOption_quoted_of_error {text : List Char} (h : ∃ p, escaped text = .error p) :
    (quoted ('\\' :: text)).toOption = none := by
  obtain ⟨p, hp⟩ := h
  rw [quoted_of_escaped_error hp]
  rfl

/-- What follows a code unit starts no other one if its next part is none. -/
theorem inside_ne_unit {q : Quotation}
    (h : ∀ (u : CodeUnit) (more : Quotation), q = .unit u :: more → False)
    (rest after : List Char) : q.inside ++ '"' :: rest ≠ '\\' :: 'u' :: after := by
  cases q with
  | nil => simp [Quotation.inside]
  | cons p q =>
    cases p with
    | plain c hc => simp [inside_cons, Piece.text, hc.2.2]
    | escape e => cases e <;> simp [inside_cons, Piece.text, Escape.sign]
    | unit u => exact (h u q rfl).elim

/-- The inside of a string, read up to the closing quote, is what its parts stand for; it is refused
if they stand for nothing. -/
theorem toOption_quoted_inside (q : Quotation) (rest : List Char) :
    (quoted (q.inside ++ '"' :: rest)).toOption = q.decode?.map (·, rest) := by
  fun_induction Quotation.decode? q with
  | case1 =>
    have hend : quoted ('"' :: rest) = .ok ([], rest) := by rw [quoted]
    exact congrArg Except.toOption hend
  | case2 c hc pieces ih =>
    have hread := quoted_plain hc (Quotation.inside pieces ++ '"' :: rest)
    exact (congrArg Except.toOption hread).trans (toOption_map_cons c ih)
  | case3 e pieces ih =>
    have hread := quoted_of_escaped (escaped_sign e (Quotation.inside pieces ++ '"' :: rest))
    exact (congrArg Except.toOption hread).trans (toOption_map_cons e.char ih)
  | case4 u hu v pieces hv ih =>
    -- The only case in which two parts stand for one character.
    have hpair := codePoint_of_isHigh v (Quotation.inside pieces ++ '"' :: rest) hu
    rw [if_pos hv] at hpair
    have hread := quoted_of_escaped ((escaped_unit _).trans hpair)
    simp only [inside_cons, Piece.text, List.append_assoc, List.cons_append]
    exact (congrArg Except.toOption hread).trans (toOption_map_cons _ ih)
  | case5 u hu v pieces hv =>
    have hpair := codePoint_of_isHigh v (Quotation.inside pieces ++ '"' :: rest) hu
    rw [if_neg hv] at hpair
    simp only [inside_cons, Piece.text, List.append_assoc, List.cons_append]
    exact toOption_quoted_of_error ⟨_, hpair⟩
  | case6 u pieces hu hpieces =>
    simp only [inside_cons, Piece.text, List.append_assoc, List.cons_append]
    exact toOption_quoted_of_error (codePoint_of_unpaired hu (inside_ne_unit hpieces rest))
  | case7 u pieces hu hlow =>
    have hpoint := codePoint_of_isLow (Quotation.inside pieces ++ '"' :: rest) hlow
    simp only [inside_cons, Piece.text, List.append_assoc, List.cons_append]
    exact toOption_quoted_of_error ⟨_, hpoint⟩
  | case8 u pieces hu hlow ih =>
    have hpoint := codePoint_text u (Quotation.inside pieces ++ '"' :: rest) hu hlow
    have hread := quoted_of_escaped ((escaped_unit _).trans hpoint)
    simp only [inside_cons, Piece.text, List.append_assoc, List.cons_append]
    exact (congrArg Except.toOption hread).trans (toOption_map_cons _ ih)

/-! ## Numbers -/

/-- A text does not start with a digit. -/
def NoDigit (rest : List Char) : Prop := ∀ c ∈ rest.head?, c.isDigit = false

/-- A text does not go on with a number that stands before it. -/
def EndsNumber (rest : List Char) : Prop :=
  ∀ c ∈ rest.head?, c.isDigit = false ∧ c ≠ '.' ∧ c ≠ 'e' ∧ c ≠ 'E'

theorem EndsNumber.noDigit {rest : List Char} (h : EndsNumber rest) : NoDigit rest :=
  fun c hc ↦ (h c hc).1

theorem noDigit_cons {c : Char} (h : c.isDigit = false) (rest : List Char) :
    NoDigit (c :: rest) := by
  simpa [NoDigit] using h

theorem isDigit_digitChar (d : Fin 10) : (Nat.digitChar d.val).isDigit = true :=
  Nat.isDigit_digitChar.trans (decide_eq_true d.isLt)

theorem toNat_digitChar (d : Fin 10) : (Nat.digitChar d.val).toNat - '0'.toNat = d.val :=
  Nat.toNat_digitChar_sub_48_of_lt_ten d.isLt

theorem eq_zero_of_digitChar {d : Fin 10} (h : Nat.digitChar d.val = '0') : d = 0 :=
  Fin.ext (Nat.digitChar_eq_zero.1 h)

namespace Digits

theorem ofDigitChars_text (ds : Digits) : Nat.ofDigitChars 10 ds.text 0 = ds.value := by
  rw [value, Nat.ofDigits_eq_foldr, List.map_reverse, List.foldr_reverse, Nat.ofDigitChars, text,
    List.foldl_map, List.foldl_map]
  simp only [toNat_digitChar, Nat.cast_id, Nat.add_comm]

theorem someDigits_text (ds : Digits) {rest : List Char} (h : NoDigit rest) :
    someDigits (ds.text ++ rest) = .ok (ds.text, rest) := by
  have hstop : rest.takeWhile Char.isDigit = [] ∧ rest.dropWhile Char.isDigit = rest := by
    cases rest with
    | nil => simp
    | cons c rest => simp [h c rfl]
  obtain ⟨first, more⟩ := ds
  have hmore : ∀ c ∈ more.map (fun d ↦ Nat.digitChar d.val), c.isDigit = true := by
    simp
  simp only [text, list, List.map_cons, List.cons_append, someDigits, isDigit_digitChar, if_true,
    List.takeWhile_append_of_pos hmore, List.dropWhile_append_of_pos hmore, hstop, List.append_nil]

end Digits

theorem signedDigits_of_isDigit {c : Char} (h : c.isDigit = true) (rest : List Char) :
    signedDigits (c :: rest) = exponentDigits false (c :: rest) := by
  unfold signedDigits
  split
  · simp_all
  · simp_all
  · rfl

theorem exponentDigits_text (negative : Bool) (ds : Digits) {rest : List Char} (h : NoDigit rest) :
    exponentDigits negative (ds.text ++ rest) =
      .ok (some (if negative then -ds.value else ds.value), rest) := by
  rw [exponentDigits, ds.someDigits_text h, ← ds.ofDigitChars_text]
  rfl

namespace Exponent

def value (e : Exponent) : Int :=
  match e.sign with
  | .minus => -e.digits.value
  | _ => e.digits.value

theorem signedDigits_text (e : Exponent) {rest : List Char} (h : NoDigit rest) :
    signedDigits (e.sign.text ++ e.digits.text ++ rest) = .ok (some e.value, rest) := by
  obtain ⟨capital, sign, digits⟩ := e
  cases sign with
  | absent =>
    exact (signedDigits_of_isDigit (isDigit_digitChar digits.first) _).trans
      (exponentDigits_text false digits h)
  | plus => exact exponentDigits_text false digits h
  | minus => exact exponentDigits_text true digits h

theorem exponentPart_text (e : Exponent) {rest : List Char} (h : NoDigit rest) :
    exponentPart (e.text ++ rest) = .ok (some e.value, rest) := by
  have hread := e.signedDigits_text h
  cases hcapital : e.capital with
  | false => simpa [text, hcapital, exponentPart] using hread
  | true => simpa [text, hcapital, exponentPart] using hread

end Exponent

namespace Decimal

/-- The number that a reader makes of the text. -/
def number (x : Decimal) : Number where
  negative := x.negative
  whole := x.whole.text
  fraction := x.fraction.map Digits.text
  exponent := x.exponent.map Exponent.value

theorem natural?_number_eq_some_iff (x : Decimal) (n : Nat) :
    x.number.natural? = some n ↔ x.IsWhole ∧ x.whole.value = n := by
  simp [Number.natural?, number, Digits.ofDigitChars_text, IsWhole, and_assoc]

theorem wholePart_text (x : Decimal) {rest : List Char} (h : NoDigit rest) :
    wholePart (x.whole.text ++ rest) = .ok (x.whole.text, rest) := by
  rw [wholePart, x.whole.someDigits_text h]
  split
  · rename_i c more after heq
    have htext : x.whole.text = '0' :: c :: more := congrArg Prod.fst (Except.ok.inj heq)
    obtain ⟨hfirst, hmore⟩ := List.cons.inj htext
    rw [x.noLeadingZero (eq_zero_of_digitChar hfirst)] at hmore
    cases hmore
  · rfl

theorem fractionPart_of_head?_ne {rest : List Char} (h : ∀ c ∈ rest.head?, c ≠ '.') :
    fractionPart rest = .ok (none, rest) := by
  unfold fractionPart
  split
  · exact absurd rfl (h '.' rfl)
  · rfl

theorem fractionPart_text (x : Decimal) {rest : List Char} (h : NoDigit rest)
    (hpoint : ∀ c ∈ rest.head?, c ≠ '.') :
    fractionPart ((x.fraction.elim [] fun ds ↦ '.' :: ds.text) ++ rest) =
      .ok (x.fraction.map Digits.text, rest) := by
  cases x.fraction with
  | none => exact fractionPart_of_head?_ne hpoint
  | some ds =>
    have hread := ds.someDigits_text h
    simp [fractionPart, hread, Except.map]

theorem exponentPart_of_endsNumber {rest : List Char} (h : EndsNumber rest) :
    exponentPart rest = .ok (none, rest) := by
  unfold exponentPart
  split
  · exact absurd rfl (h 'e' rfl).2.2.1
  · exact absurd rfl (h 'E' rfl).2.2.2
  · rfl

theorem exponentPart_text (x : Decimal) {rest : List Char} (h : EndsNumber rest) :
    exponentPart (x.exponent.elim [] Exponent.text ++ rest) =
      .ok (x.exponent.map Exponent.value, rest) := by
  cases x.exponent with
  | none => exact exponentPart_of_endsNumber h
  | some e => exact e.exponentPart_text h.noDigit

theorem head?_exponent (x : Decimal) {rest : List Char} (h : EndsNumber rest) :
    ∀ c ∈ (x.exponent.elim [] Exponent.text ++ rest).head?, c.isDigit = false ∧ c ≠ '.' := by
  cases x.exponent with
  | none => exact fun c hc ↦ ⟨(h c hc).1, (h c hc).2.1⟩
  | some e => cases hcapital : e.capital <;> simp [Exponent.text, hcapital]

theorem noDigit_fraction (x : Decimal) {rest : List Char} (h : NoDigit rest) :
    NoDigit ((x.fraction.elim [] fun ds ↦ '.' :: ds.text) ++ rest) := by
  cases x.fraction with
  | none => exact h
  | some ds => exact noDigit_cons (by decide) _

/-- A number is read as it is written, up to what cannot go on with it. -/
theorem unsignedNumber_unsigned (x : Decimal) {rest : List Char} (h : EndsNumber rest) :
    unsignedNumber x.negative (x.unsigned ++ rest) =
      if x.number.isTooLarge then .error .malformed else .ok (x.number, rest) := by
  have hhead := x.head?_exponent h
  have hexponent : NoDigit (x.exponent.elim [] Exponent.text ++ rest) := fun c hc ↦ (hhead c hc).1
  rw [unsigned, List.append_assoc, List.append_assoc, unsignedNumber,
    x.wholePart_text (x.noDigit_fraction hexponent)]
  change (fractionPart _ >>= _) = _
  rw [x.fractionPart_text hexponent fun c hc ↦ (hhead c hc).2]
  change (exponentPart _ >>= _) = _
  rw [x.exponentPart_text h]
  rfl

end Decimal

/-! ## Tokens -/

theorem startOf_of_isDigit {c : Char} (h : c.isDigit = true) : startOf c = .digit := by
  have hspace : isSpace c = false := by
    cases hc : isSpace c with
    | false => rfl
    | true =>
      simp only [isSpace, Bool.or_eq_true, beq_iff_eq] at hc
      obtain ((rfl | rfl) | rfl) | rfl := hc <;> cases h
  simp [startOf, hspace, h]

theorem tokens_of_space {c : Char} (h : startOf c = .space) (rest : List Char) :
    tokens (c :: rest) = tokens rest := by
  rw [tokens, h]

theorem tokens_of_mark {c : Char} (h : startOf c = .mark) (rest : List Char) :
    tokens (c :: rest) = .mark c :: tokens rest := by
  rw [tokens, h]

theorem tokens_gap (g : Gap) (rest : List Char) : tokens (g.text ++ rest) = tokens rest := by
  induction g with
  | nil => rfl
  | cons s g ih =>
    have hspace : startOf s.char = .space := by cases s <;> rfl
    exact (tokens_of_space hspace _).trans ih

theorem tokens_of_quoted {rest after text : List Char} (h : quoted rest = .ok (text, after)) :
    tokens ('"' :: rest) = .string text :: tokens after := by
  rw [tokens, show startOf '"' = .quote from rfl]
  dsimp only
  split
  · simp_all
  · simp_all

theorem tokens_of_quoted_error {rest : List Char} {p : Problem} (h : quoted rest = .error p) :
    tokens ('"' :: rest) = [.broken true p] := by
  rw [tokens, show startOf '"' = .quote from rfl]
  dsimp only
  split
  · simp_all
  · simp_all

theorem tokens_quotation (q : Quotation) (rest : List Char) :
    (∃ text, q.decode? = some text ∧ tokens (q.text ++ rest) = .string text :: tokens rest) ∨
      (q.decode? = none ∧ ∃ p, tokens (q.text ++ rest) = [.broken true p]) := by
  have hread := toOption_quoted_inside q rest
  have htext : q.text ++ rest = '"' :: (q.inside ++ '"' :: rest) := by
    simp [Quotation.text]
  rw [htext]
  cases hq : quoted (q.inside ++ '"' :: rest) with
  | error p =>
    rw [hq] at hread
    exact .inr ⟨Option.map_eq_none_iff.mp hread.symm, p, tokens_of_quoted_error hq⟩
  | ok result =>
    rw [hq] at hread
    obtain ⟨text, hdecode, rfl⟩ := Option.map_eq_some_iff.mp hread.symm
    exact .inl ⟨text, hdecode, tokens_of_quoted hq⟩

theorem tokens_minus {rest : List Char} {x : Number} {after : List Char} {b : Bool}
    (h : unsignedNumber true rest = if b then .error .malformed else .ok (x, after)) :
    tokens ('-' :: rest) =
      if b then [.broken false .malformed] else .number x :: tokens after := by
  rw [tokens, show startOf '-' = .minus from rfl]
  dsimp only
  cases b <;> split <;> simp_all

theorem tokens_digit {c : Char} (hc : c.isDigit = true) {rest : List Char} {x : Number}
    {after : List Char} {b : Bool}
    (h : unsignedNumber false (c :: rest) = if b then .error .malformed else .ok (x, after)) :
    tokens (c :: rest) =
      if b then [.broken false .malformed] else .number x :: tokens after := by
  rw [tokens, startOf_of_isDigit hc]
  dsimp only
  cases b <;> split <;> simp_all

theorem tokens_decimal (x : Decimal) {rest : List Char} (h : EndsNumber rest) :
    tokens (x.text ++ rest) =
      if x.number.isTooLarge then [.broken false .malformed]
      else .number x.number :: tokens rest := by
  have hread := x.unsignedNumber_unsigned h
  cases hsign : x.negative with
  | false =>
    rw [hsign] at hread
    rw [Decimal.text, hsign]
    exact tokens_digit (isDigit_digitChar x.whole.first) hread
  | true =>
    rw [hsign] at hread
    rw [Decimal.text, hsign]
    exact tokens_minus hread

theorem tokens_of_wordRest {c : Char} {w : Word} {expected rest after : List Char}
    (hc : startOf c = .word w expected) (h : wordRest expected rest = .ok after) :
    tokens (c :: rest) = .word w :: tokens after := by
  rw [tokens, hc]
  dsimp only
  split
  · simp_all
  · simp_all

theorem tokens_word (w : Word) (rest : List Char) :
    tokens (w.text ++ rest) = .word w :: tokens rest := by
  cases w with
  | true => exact tokens_of_wordRest rfl rfl
  | false => exact tokens_of_wordRest rfl rfl
  | null => exact tokens_of_wordRest rfl rfl

end OctetMachine.JsonText
