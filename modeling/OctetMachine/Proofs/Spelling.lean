import Mathlib.Data.List.Induction
import Mathlib.Data.List.TakeWhile
import Mathlib.Data.Nat.Digits.Defs
import OctetMachine.Program

/-!
# Spellings of a byte

A byte literal is made of parts: a sign, a mark with or without a separator behind it, and groups of
digits with one separator between two of them. `Spelling` says which texts the parts make, and which
number. A line of a program is read as the number of a spelling of its text; a text is refused if it
has no spelling, and also if it has one of a number above 255, then for overflow.
-/

namespace OctetMachine.Program

/-- One or more binary digits, the most significant first. -/
structure Group where
  first : Bool
  rest : List Bool

/-- One or more groups of digits. -/
structure Grouping where
  first : Group
  rest : List Group

/-- The mark `0b` or `0B`, which a separator may follow. -/
structure Mark where
  capital : Bool
  separated : Bool

/-- The parts of a byte literal. -/
structure Spelling where
  signed : Bool
  mark : Option Mark
  groups : Grouping

def digit (b : Bool) : Char := if b then '1' else '0'

/-- The number of binary digits, the most significant first. -/
def number (bits : List Bool) : Nat := Nat.ofDigits 2 (bits.reverse.map Bool.toNat)

namespace Group

def bits (g : Group) : List Bool := g.first :: g.rest

def text (g : Group) : List Char := g.bits.map digit

end Group

namespace Grouping

def bits (g : Grouping) : List Bool := g.first.bits ++ g.rest.flatMap Group.bits

/-- The groups in a row, a separator before each but the first. -/
def text (g : Grouping) : List Char := g.first.text ++ g.rest.flatMap fun group ↦ '_' :: group.text

end Grouping

def Mark.text (m : Mark) : List Char :=
  '0' :: (if m.capital then 'B' else 'b') :: if m.separated then ['_'] else []

namespace Spelling

def text (s : Spelling) : List Char :=
  (if s.signed then ['+'] else []) ++ (s.mark.elim [] Mark.text ++ s.groups.text)

def value (s : Spelling) : Nat := number s.groups.bits

end Spelling

/-! ## Digits -/

@[simp] theorem digit_ne_separator (b : Bool) : digit b ≠ '_' := by cases b <;> decide

@[simp] theorem digitValue?_digit (b : Bool) : digitValue? (digit b) = some b.toNat := by
  cases b <;> rfl

theorem exists_digit_of_digitValue? {c : Char} {d : Nat} (h : digitValue? c = some d) :
    ∃ b, c = digit b := by
  unfold digitValue? at h
  split at h
  · exact ⟨false, rfl⟩
  · exact ⟨true, rfl⟩
  · cases h

theorem number_cons (b : Bool) (bits : List Bool) :
    number (b :: bits) = b.toNat * 2 ^ bits.length + number bits := by
  simp only [number, List.reverse_cons, List.map_append, List.map_singleton, Nat.ofDigits_append,
    Nat.ofDigits_singleton, List.length_map, List.length_reverse]
  rw [Nat.add_comm, Nat.mul_comm]

/-- Digits behind those of a value that fits are read on from it, and fail only for overflow. -/
theorem readDigits_map_digit (bits : List Bool) {value : Nat} (hvalue : value < 256) :
    readDigits value (bits.map digit) =
      if value * 2 ^ bits.length + number bits < 256 then
        .ok (UInt8.ofNat (value * 2 ^ bits.length + number bits))
      else .error .overflow := by
  induction bits generalizing value with
  | nil => simp [readDigits, number, hvalue]
  | cons b bits ih =>
    have hnumber : (2 * value + b.toNat) * 2 ^ bits.length + number bits =
        value * 2 ^ (b :: bits).length + number (b :: bits) := by
      rw [number_cons, List.length_cons, Nat.pow_succ]
      ring
    rw [← hnumber, List.map_cons, readDigits, digitValue?_digit]
    dsimp only
    split
    next hfits => exact ih hfits
    next hlarge =>
      have hle : 256 ≤ (2 * value + b.toNat) * 2 ^ bits.length + number bits :=
        calc
          256 ≤ 2 * value + b.toNat := Nat.le_of_not_lt hlarge
          _ ≤ (2 * value + b.toNat) * 2 ^ bits.length :=
            Nat.le_mul_of_pos_right _ (Nat.two_pow_pos _)
          _ ≤ _ := Nat.le_add_right _ _
      rw [if_neg (Nat.not_lt_of_le hle)]

theorem exists_bits_of_readDigits {value : Nat} {text : List Char} {v : UInt8}
    (h : readDigits value text = .ok v) : ∃ bits : List Bool, text = bits.map digit := by
  induction text generalizing value with
  | nil => exact ⟨[], rfl⟩
  | cons c rest ih =>
    rw [readDigits] at h
    split at h
    next => cases h
    next d hd =>
      split at h
      next =>
        obtain ⟨b, rfl⟩ := exists_digit_of_digitValue? hd
        obtain ⟨bits, rfl⟩ := ih h
        exact ⟨b :: bits, rfl⟩
      next => cases h

theorem readDigits_ne_empty (value : Nat) (text : List Char) :
    readDigits value text ≠ .error .empty := by
  fun_induction readDigits value text <;> simp_all

theorem readNumeral_map_digit (b : Bool) (bits : List Bool) :
    readNumeral ((b :: bits).map digit) = readDigits 0 ((b :: bits).map digit) := by
  cases b <;> rfl

theorem exists_bits_of_readNumeral {text : List Char} {v : UInt8} (h : readNumeral text = .ok v) :
    ∃ (signed : Bool) (g : Group), text = (if signed then ['+'] else []) ++ g.text := by
  unfold readNumeral at h
  split at h
  next => cases h
  next c rest =>
    obtain ⟨bits, hbits⟩ := exists_bits_of_readDigits h
    cases bits with
    | nil => cases hbits
    | cons b bits => exact ⟨true, ⟨b, bits⟩, congrArg ('+' :: ·) hbits⟩
  next hne _ =>
    obtain ⟨bits, rfl⟩ := exists_bits_of_readDigits h
    cases bits with
    | nil => exact absurd rfl hne
    | cons b bits => exact ⟨false, ⟨b, bits⟩, rfl⟩

/-! ## Groups -/

namespace Grouping

/-- A group of one digit. -/
def single (b : Bool) : Grouping := ⟨⟨b, []⟩, []⟩

/-- One more digit in the first group. -/
def extend (b : Bool) (g : Grouping) : Grouping := ⟨⟨b, g.first.bits⟩, g.rest⟩

/-- One more group of one digit. -/
def prepend (b : Bool) (g : Grouping) : Grouping := ⟨⟨b, []⟩, g.first :: g.rest⟩

theorem text_extend (b : Bool) (g : Grouping) : (g.extend b).text = digit b :: g.text := rfl

theorem text_prepend (b : Bool) (g : Grouping) :
    (g.prepend b).text = digit b :: '_' :: g.text := rfl

theorem eq_of_mem_text {g : Grouping} {c : Char} (h : c ∈ g.text) :
    c = '_' ∨ ∃ b, c = digit b := by
  simp only [text, Group.text, List.mem_append, List.mem_map, List.mem_flatMap, List.mem_cons] at h
  rcases h with ⟨b, -, rfl⟩ | ⟨group, -, rfl | ⟨b, -, rfl⟩⟩
  · exact .inr ⟨b, rfl⟩
  · exact .inl rfl
  · exact .inr ⟨b, rfl⟩

theorem filter_text (g : Grouping) : g.text.filter (· ≠ '_') = g.bits.map digit := by
  have hgroup (group : Group) : group.text.filter (· ≠ '_') = group.bits.map digit := by
    apply List.filter_eq_self.2
    intro c hc
    obtain ⟨b, -, rfl⟩ := List.mem_map.1 hc
    simp
  have hlater (group : Group) : ('_' :: group.text).filter (· ≠ '_') = group.bits.map digit := by
    rw [List.filter_cons_of_neg (by simp), hgroup]
  rw [text, bits, List.filter_append, List.map_append, hgroup, List.filter_flatMap,
    List.map_flatMap]
  simp only [hlater]

theorem text_eq_of_not_mem {g : Grouping} (h : '_' ∉ g.text) : g.text = g.bits.map digit := by
  rw [← filter_text, List.filter_eq_self.2]
  intro c hc
  simpa using fun heq : c = '_' ↦ h (heq ▸ hc)

end Grouping

theorem separatorsFollowed_digit (b : Bool) (text : List Char) :
    separatorsFollowed (digit b :: text) = separatorsFollowed text := by
  cases b <;> rfl

theorem wellSeparated_digit (b : Bool) (text : List Char) :
    wellSeparated (digit b :: text) = separatorsFollowed text := by
  cases b <;> rfl

theorem separatorsFollowed_map_digit (bits : List Bool) (text : List Char) :
    separatorsFollowed (bits.map digit ++ text) = separatorsFollowed text := by
  induction bits with
  | nil => rfl
  | cons b bits ih => rw [List.map_cons, List.cons_append, separatorsFollowed_digit, ih]

theorem separatorsFollowed_separator_digit (b : Bool) (text : List Char) :
    separatorsFollowed ('_' :: digit b :: text) = separatorsFollowed text := by
  cases b <;> rfl

theorem wellSeparated_text (g : Grouping) : wellSeparated g.text = true := by
  have hlater : separatorsFollowed (g.rest.flatMap fun group ↦ '_' :: group.text) = true := by
    induction g.rest with
    | nil => rfl
    | cons group rest ih =>
      rw [List.flatMap_cons, Group.text, Group.bits, List.map_cons, List.cons_append,
        List.cons_append, separatorsFollowed_separator_digit, separatorsFollowed_map_digit, ih]
  change wellSeparated (digit g.first.first :: (g.first.rest.map digit ++ _)) = true
  rw [wellSeparated_digit, separatorsFollowed_map_digit, hlater]

theorem ne_separator_of_wellSeparated {c : Char} {text : List Char}
    (h : wellSeparated (c :: text) = true) : c ≠ '_' := by
  rintro rfl
  cases h

theorem wellSeparated_of_separator {text : List Char}
    (hsep : separatorsFollowed ('_' :: text) = true)
    (hdigits : ∀ c ∈ text, c ≠ '_' → ∃ b, c = digit b) : wellSeparated text = true := by
  cases text with
  | nil => cases hsep
  | cons c rest =>
    have hc : c ≠ '_' := by
      rintro rfl
      cases hsep
    obtain ⟨b, rfl⟩ := hdigits c List.mem_cons_self hc
    rw [wellSeparated_digit]
    rwa [separatorsFollowed_separator_digit] at hsep

/-- A text of digits in which separators are well placed is a row of groups. -/
theorem exists_grouping {text : List Char} (hsep : wellSeparated text = true)
    (hdigits : ∀ c ∈ text, c ≠ '_' → ∃ b, c = digit b) : ∃ g : Grouping, g.text = text := by
  -- A separator goes with the digit in front of it, so the text is taken apart by two characters.
  induction text using List.twoStepInduction with
  | nil => cases hsep
  | singleton c =>
    obtain ⟨b, rfl⟩ := hdigits c List.mem_cons_self (ne_separator_of_wellSeparated hsep)
    exact ⟨.single b, rfl⟩
  | cons_cons c d rest ih ihcons =>
    obtain ⟨b, rfl⟩ := hdigits c List.mem_cons_self (ne_separator_of_wellSeparated hsep)
    have htail : ∀ e ∈ d :: rest, e ≠ '_' → ∃ b, e = digit b :=
      fun e he ↦ hdigits e (List.mem_cons_of_mem _ he)
    rw [wellSeparated_digit] at hsep
    by_cases hd : d = '_'
    · subst hd
      have hrest : ∀ e ∈ rest, e ≠ '_' → ∃ b, e = digit b :=
        fun e he ↦ htail e (List.mem_cons_of_mem _ he)
      obtain ⟨g, hg⟩ := ih (wellSeparated_of_separator hsep hrest) hrest
      exact ⟨g.prepend b, by rw [Grouping.text_prepend, hg]⟩
    · obtain ⟨b', rfl⟩ := htail d List.mem_cons_self hd
      rw [separatorsFollowed_digit, ← wellSeparated_digit b'] at hsep
      obtain ⟨g, hg⟩ := ihcons _ hsep htail
      exact ⟨g.extend b, by rw [Grouping.text_extend, hg]⟩

/-! ## Literals -/

theorem exists_sign (text : List Char) :
    ∃ signed : Bool, (if signed then ['+'] else []) ++ unsigned text = text := by
  unfold unsigned
  split
  · exact ⟨true, rfl⟩
  · exact ⟨false, rfl⟩

theorem exists_mark_of_separable? {text body : List Char} (h : separable? text = some body) :
    ∃ mark : Option Mark, mark.elim [] Mark.text ++ body = text := by
  have hseparated (capital : Bool) (rest : List Char) :
      ∃ m : Mark, m.capital = capital ∧
        (if m.separated then ['_'] else []) ++ unseparated rest = rest := by
    unfold unseparated
    split
    · exact ⟨⟨capital, true⟩, rfl, rfl⟩
    · exact ⟨⟨capital, false⟩, rfl, rfl⟩
  unfold separable? at h
  split at h
  next rest =>
    obtain ⟨m, hcapital, hrest⟩ := hseparated false rest
    exact ⟨some m, by simp_all [Mark.text]⟩
  next rest =>
    obtain ⟨m, hcapital, hrest⟩ := hseparated true rest
    exact ⟨some m, by simp_all [Mark.text]⟩
  next =>
    split at h
    next =>
      cases h
      exact ⟨none, rfl⟩
    next => cases h

theorem unsigned_text (s : Spelling) :
    unsigned s.text = s.mark.elim [] Mark.text ++ s.groups.text := by
  obtain ⟨signed, mark, ⟨⟨b, bits⟩, rest⟩⟩ := s
  cases signed with
  | true => rfl
  | false => cases mark <;> cases b <;> rfl

theorem separable?_mark (m : Mark) (g : Grouping) :
    separable? (m.text ++ g.text) = some g.text := by
  obtain ⟨capital, separated⟩ := m
  obtain ⟨⟨b, bits⟩, rest⟩ := g
  cases capital <;> cases separated <;> cases b <;> rfl

theorem separable?_groups (g : Grouping) :
    separable? g.text = if g.text.contains '_' then some g.text else none := by
  have hletter (c : Char) (hc : c = 'b' ∨ c = 'B') : c ∉ g.text := by
    intro hmem
    rcases g.eq_of_mem_text hmem with rfl | ⟨b, rfl⟩
    · simp at hc
    · cases b <;> simp [digit] at hc
  unfold separable?
  split
  next rest heq => exact absurd (by simp [heq]) (hletter 'b' (.inl rfl))
  next rest heq => exact absurd (by simp [heq]) (hletter 'B' (.inr rfl))
  next => rfl

theorem digitsOf_of_separable? {text body : List Char}
    (hbody : separable? (unsigned text) = some body) (hsep : wellSeparated body = true) :
    digitsOf text = body.filter (· ≠ '_') := by
  simp only [digitsOf, hbody, hsep, if_true]

/-- A literal is taken for what it is, or freed of its mark and its separators. -/
theorem digitsOf_cases (text : List Char) :
    digitsOf text = text ∨
      ∃ body, separable? (unsigned text) = some body ∧ wellSeparated body = true ∧
        digitsOf text = body.filter (· ≠ '_') := by
  cases hbody : separable? (unsigned text) with
  | none => exact .inl (by simp only [digitsOf, hbody])
  | some body =>
    cases hsep : wellSeparated body with
    | false => exact .inl (by simp [digitsOf, hbody, hsep])
    | true => exact .inr ⟨body, rfl, hsep, digitsOf_of_separable? hbody hsep⟩

theorem readNumeral_digitsOf_text (s : Spelling) :
    readNumeral (digitsOf s.text) = readDigits 0 (s.groups.bits.map digit) := by
  have hgroups : readNumeral (s.groups.bits.map digit) = readDigits 0 (s.groups.bits.map digit) :=
    readNumeral_map_digit _ _
  by_cases hplain : s.mark = none ∧ '_' ∉ s.groups.text
  · have hnone : separable? (unsigned s.text) = none := by
      rw [unsigned_text, hplain.1, Option.elim_none, List.nil_append, separable?_groups]
      simp [hplain.2]
    have htext : digitsOf s.text = (if s.signed then ['+'] else []) ++ s.groups.bits.map digit := by
      simp only [digitsOf, hnone]
      rw [Spelling.text, hplain.1, Grouping.text_eq_of_not_mem hplain.2]
      rfl
    rw [htext]
    cases s.signed with
    | true => rfl
    | false => exact hgroups
  · have hbody : separable? (unsigned s.text) = some s.groups.text := by
      rw [unsigned_text]
      cases hmark : s.mark with
      | none =>
        have hmem : '_' ∈ s.groups.text := by simpa [hmark] using hplain
        rw [Option.elim_none, List.nil_append, separable?_groups, if_pos (by simpa using hmem)]
      | some m => exact separable?_mark m s.groups
    rw [digitsOf_of_separable? hbody (wellSeparated_text s.groups), Grouping.filter_text, hgroups]

/-- The reader of literals on every text that has a spelling. -/
theorem readLiteral_text (s : Spelling) :
    readLiteral s.text =
      if s.value < 256 then .ok (UInt8.ofNat s.value) else .error .overflow := by
  rw [readLiteral, readNumeral_digitsOf_text, readDigits_map_digit _ (by decide), Nat.zero_mul,
    Nat.zero_add]
  rfl

/-- No sign comes to light when the separators are taken out. -/
theorem head?_filter_ne_sign {text : List Char} (h : wellSeparated text = true) :
    (text.filter (· ≠ '_')).head? ≠ some '+' := by
  cases text with
  | nil => cases h
  | cons c rest =>
    have hc : c ≠ '+' := by
      rintro rfl
      cases h
    rw [List.filter_cons_of_pos (by simpa using ne_separator_of_wellSeparated h)]
    simpa using hc

theorem exists_spelling_of_readLiteral {text : List Char} {v : UInt8}
    (h : readLiteral text = .ok v) : ∃ s : Spelling, s.text = text := by
  obtain ⟨signed, group, hdigits⟩ := exists_bits_of_readNumeral h
  rcases digitsOf_cases text with hplain | ⟨body, hbody, hsep, hfilter⟩
  · rw [hplain] at hdigits
    refine ⟨⟨signed, none, ⟨group, []⟩⟩, ?_⟩
    rw [hdigits]
    simp [Spelling.text, Grouping.text]
  · rw [hfilter] at hdigits
    have hbinary : ∀ c ∈ body, c ≠ '_' → ∃ b, c = digit b := by
      intro c hc hne
      have hmem : c ∈ body.filter (· ≠ '_') := List.mem_filter.2 ⟨hc, by simpa using hne⟩
      rw [hdigits] at hmem
      cases signed with
      | true => exact absurd (by rw [hdigits]; rfl) (head?_filter_ne_sign hsep)
      | false =>
        obtain ⟨b, -, hb⟩ := List.mem_map.1 hmem
        exact ⟨b, hb.symm⟩
    obtain ⟨g, rfl⟩ := exists_grouping hsep hbinary
    obtain ⟨mark, hmark⟩ := exists_mark_of_separable? hbody
    obtain ⟨sign, hsign⟩ := exists_sign text
    exact ⟨⟨sign, mark, g⟩, by rw [Spelling.text, hmark, hsign]⟩

theorem readLiteral_eq_ok_iff {text : List Char} {v : UInt8} :
    readLiteral text = .ok v ↔ ∃ s : Spelling, s.text = text ∧ s.value = v.toNat := by
  constructor
  · intro h
    obtain ⟨s, rfl⟩ := exists_spelling_of_readLiteral h
    rw [readLiteral_text] at h
    split at h
    next hfits =>
      cases h
      exact ⟨s, rfl, (UInt8.toNat_ofNat_of_lt hfits).symm⟩
    next => cases h
  · rintro ⟨s, rfl, hvalue⟩
    rw [readLiteral_text, hvalue, if_pos v.toNat_lt, UInt8.ofNat_toNat]

theorem readNumeral_ne_empty {text : List Char} (h : text ≠ []) :
    readNumeral text ≠ .error .empty := by
  unfold readNumeral
  split
  · exact absurd rfl h
  · exact readDigits_ne_empty _ _
  · exact readDigits_ne_empty _ _

theorem readLiteral_ne_empty {text : List Char} (h : text ≠ []) :
    readLiteral text ≠ .error .empty := by
  apply readNumeral_ne_empty
  rcases digitsOf_cases text with hplain | ⟨body, -, hsep, hfilter⟩
  · rwa [hplain]
  · rw [hfilter]
    cases body with
    | nil => cases hsep
    | cons c rest =>
      rw [List.filter_cons_of_pos (by simpa using ne_separator_of_wellSeparated hsep)]
      exact List.cons_ne_nil _ _

/-! ## Texts of one line -/

theorem trimEnd_eq_self {text : List Char} (hlast : ∀ c ∈ text.getLast?, Text.isBlank c = false) :
    Text.trimEnd text = text := by
  induction text with
  | nil => rfl
  | cons c rest ih =>
    cases rest with
    | nil =>
      have hc : Text.isBlank c = false := hlast c rfl
      simp [Text.trimEnd, hc]
    | cons d rest =>
      have hrest : Text.trimEnd (d :: rest) = d :: rest := ih fun e he ↦ hlast e he
      change (if Text.isBlank c && (Text.trimEnd (d :: rest)).isEmpty then []
        else c :: Text.trimEnd (d :: rest)) = _
      simp [hrest]

theorem trim_eq_self {text : List Char} (hfirst : ∀ c ∈ text.head?, Text.isBlank c = false)
    (hlast : ∀ c ∈ text.getLast?, Text.isBlank c = false) : Text.trim text = text := by
  cases text with
  | nil => rfl
  | cons c rest =>
    rw [Text.trim, List.dropWhile_cons_of_neg (by simp [hfirst c rfl]), trimEnd_eq_self hlast]

/-- A line that holds nothing but code. -/
theorem code_eq_self {line : List Char} (hcomment : '#' ∉ line)
    (hfirst : ∀ c ∈ line.head?, Text.isBlank c = false)
    (hlast : ∀ c ∈ line.getLast?, Text.isBlank c = false) : code line = line := by
  have huncommented : line.takeWhile (· ≠ '#') = line := by
    apply List.takeWhile_eq_self_iff.2
    intro c hc
    simpa using fun heq : c = '#' ↦ hcomment (heq ▸ hc)
  rw [code, huncommented, trim_eq_self hfirst hlast]

/-- A text that is one line of code is read as a literal. -/
theorem image_eq_readLiteral {text : String} (hne : text ≠ "") (hcomment : '#' ∉ text.toList)
    (hline : '\n' ∉ text.toList) (hfirst : ∀ c ∈ text.toList.head?, Text.isBlank c = false)
    (hlast : ∀ c ∈ text.toList.getLast?, Text.isBlank c = false) :
    image text =
      match readLiteral text.toList with
      | .error cause => .error (.malformed 1 text cause)
      | .ok b => .ok [b] := by
  have hlines : lines text.toList = [text.toList] := List.splitOn_eq_singleton hline
  have hcode : code text.toList = text.toList := code_eq_self hcomment hfirst hlast
  have hsome : text.toList.isEmpty = false := by simpa using hne
  rw [image, hlines, imageOfLines, hcode, hsome]
  cases readLiteral text.toList <;> simp [imageOfLines, Except.map]

/-- The literals are exactly the texts that have a spelling, and their bytes are its values. A text
without a spelling of at most 255 is refused as it stands, for overflow if it has a larger one, and
never as an empty text. -/
theorem image_eq_ok_iff_spelling (text : String) (hne : text ≠ "") (hcomment : '#' ∉ text.toList)
    (hline : '\n' ∉ text.toList) (hfirst : ∀ c ∈ text.toList.head?, Text.isBlank c = false)
    (hlast : ∀ c ∈ text.toList.getLast?, Text.isBlank c = false) :
    (∀ v : UInt8, image text = .ok [v] ↔
        ∃ s : Spelling, s.text = text.toList ∧ s.value = v.toNat) ∧
      ((∀ s : Spelling, s.text = text.toList → 255 < s.value) →
        ∃ cause, image text = .error (.malformed 1 text cause) ∧ cause ≠ .empty) ∧
      (∀ s : Spelling, s.text = text.toList → 255 < s.value →
        image text = .error (.malformed 1 text .overflow)) ∧
      LiteralError.overflow.message = "number too large to fit in target type" := by
  have himage := image_eq_readLiteral hne hcomment hline hfirst hlast
  refine ⟨?_, ?_, ?_, rfl⟩
  · intro v
    rw [← readLiteral_eq_ok_iff, himage]
    cases readLiteral text.toList <;> simp
  · intro hlarge
    cases hread : readLiteral text.toList with
    | error cause =>
      refine ⟨cause, by rw [himage, hread], ?_⟩
      rintro rfl
      exact readLiteral_ne_empty (by simpa using hne) hread
    | ok v =>
      obtain ⟨s, htext, hvalue⟩ := readLiteral_eq_ok_iff.1 hread
      have hfits : v.toNat < 256 := v.toNat_lt
      have hbeyond : 255 < s.value := hlarge s htext
      omega
  · intro s htext hbeyond
    rw [himage, ← htext, readLiteral_text, if_neg (Nat.not_lt_of_le hbeyond)]

/-- All parts of a literal in one, and a value one above the largest. -/
theorem image_eq_ok_iff_spelling_of_sign_mark_groups :
    image "+0B_1111_1111" = .ok [255] ∧
      image "0b1_0000_0000" = .error (.malformed 1 "0b1_0000_0000" .overflow) := by
  constructor
  · have hspelling := image_eq_ok_iff_spelling "+0B_1111_1111" (by decide) (by decide) (by decide)
      (by rintro c ⟨⟩; decide) (by rintro c ⟨⟩; decide)
    apply (hspelling.1 255).2
    exact ⟨⟨true, some ⟨true, true⟩, ⟨⟨true, [true, true, true]⟩, [⟨true, [true, true, true]⟩]⟩⟩,
      by decide, by decide⟩
  · have hspelling := image_eq_ok_iff_spelling "0b1_0000_0000" (by decide) (by decide) (by decide)
      (by rintro c ⟨⟩; decide) (by rintro c ⟨⟩; decide)
    apply hspelling.2.2.1 ⟨false, some ⟨false, false⟩,
      ⟨⟨true, []⟩, [⟨false, [false, false, false]⟩, ⟨false, [false, false, false]⟩]⟩⟩
    · decide
    · decide

end OctetMachine.Program
