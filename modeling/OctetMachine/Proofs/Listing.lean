import OctetMachine.Proofs.Loading

/-!
# Listings of instructions

The first word of an instruction's text is its mnemonic, or question marks for a byte that is no
operation. The numbers behind a mnemonic are the operand bytes that the format counts, each as it
stands in memory and not as the register that it names. So the text tells which byte heads the
instruction and, of an operation, which operands it has, and it tells nothing else.
-/

namespace OctetMachine

/-! ## Numerals in a text -/

namespace Numeral

/-- The numbers that a text shows, from left to right: its longest stretches of digits. -/
def numbersIn (text : List Char) : List Nat :=
  ((text.splitOnP fun c ↦ !c.isDigit).filter (!·.isEmpty)).map fun digits ↦
    Nat.ofDigitChars 10 digits 0

theorem numbersIn_append_cons (front rest : List Char) {c : Char} (hc : c.isDigit = false) :
    numbersIn (front ++ c :: rest) = numbersIn front ++ numbersIn rest := by
  unfold numbersIn
  rw [List.splitOnP_append_cons front rest (by rw [hc]; rfl), List.filter_append, List.map_append]

theorem numbersIn_cons {c : Char} (hc : c.isDigit = false) (rest : List Char) :
    numbersIn (c :: rest) = numbersIn rest :=
  numbersIn_append_cons [] rest hc

theorem numbersIn_append_of_no_digit {front : List Char} (h : ∀ c ∈ front, c.isDigit = false)
    (rest : List Char) : numbersIn (front ++ rest) = numbersIn rest := by
  induction front with
  | nil => rfl
  | cons c front ih =>
    calc
      numbersIn (c :: (front ++ rest)) = numbersIn (front ++ rest) :=
        numbersIn_cons (h c List.mem_cons_self) _
      _ = numbersIn rest := ih fun d hd ↦ h d (List.mem_cons_of_mem c hd)

theorem numbersIn_decimalDigits (n : Nat) : numbersIn (decimalDigits n) = [n] := by
  have hdigit : ∀ c ∈ decimalDigits n, (!c.isDigit) = false := by
    intro c hc
    rw [Nat.isDigit_of_mem_toDigits (by decide) (by decide) hc]
    rfl
  rw [numbersIn, List.splitOnP_eq_singleton hdigit]
  simp [decimalDigits]

/-- The digits of a byte are a program whose image is that byte. -/
theorem binary_inj {a b : UInt8} : binary a = binary b ↔ a = b := by
  constructor
  · intro h
    have himage : (Except.ok [a] : Except Program.LoadError (List UInt8)) = .ok [b] :=
      calc
        .ok [a] = Program.image (Program.written [a]) := (Program.image_written [a]).symm
        _ = Program.image (Program.written [b]) := by
          rw [Program.written, Program.written, List.map_singleton, List.map_singleton, h]
        _ = .ok [b] := Program.image_written [b]
    exact List.singleton_inj.1 (Except.ok.inj himage)
  · exact congrArg binary

end Numeral

/-! ## The first word of a text -/

namespace Opcode

/-- No sign that has a meaning in a text stands in a mnemonic. -/
theorem of_mem_mnemonic {op : Opcode} {c : Char} (h : c ∈ op.mnemonic.toList) :
    c ≠ '?' ∧ c ≠ ' ' ∧ c.isDigit = false := by
  have hall : (op.mnemonic.toList.all fun c ↦ c != '?' && (c != ' ' && !c.isDigit)) = true := by
    cases op <;> decide
  simpa using List.all_eq_true.1 hall c h

/-- The word for what a byte was read as. -/
def word : Option Opcode → String
  | none => "???"
  | some op => op.mnemonic

theorem word_inj {x y : Option Opcode} : word x = word y ↔ x = y := by
  have hnone (op : Opcode) : op.mnemonic ≠ "???" := by
    intro h
    have hmark : '?' ∈ op.mnemonic.toList := by rw [h]; decide
    exact (of_mem_mnemonic hmark).1 rfl
  constructor
  · intro h
    cases x with
    | none =>
      cases y with
      | none => rfl
      | some op => exact absurd h.symm (hnone op)
    | some op =>
      cases y with
      | none => exact absurd h (hnone op)
      | some op' =>
        calc
          some op = ofMnemonic? op.mnemonic := op.ofMnemonic?_mnemonic.symm
          _ = ofMnemonic? op'.mnemonic := congrArg ofMnemonic? h
          _ = some op' := op'.ofMnemonic?_mnemonic
  · exact congrArg word

end Opcode

namespace Instruction

theorem toList_listed_singleton (item : String) : (listed [item]).toList = ' ' :: item.toList := by
  simp [listed]

theorem toList_listed_cons_cons (item next : String) (rest : List String) :
    (listed (item :: next :: rest)).toList =
      ' ' :: (item.toList ++ ',' :: (listed (next :: rest)).toList) := by
  simp [listed]

theorem takeWhile_listed (items : List String) :
    (listed items).toList.takeWhile (· ≠ ' ') = [] := by
  match items with
  | [] => rfl
  | [item] => rw [toList_listed_singleton]; rfl
  | item :: next :: rest => rw [toList_listed_cons_cons]; rfl

theorem takeWhile_text (i : Instruction) :
    i.text.toList.takeWhile (· ≠ ' ') = (Opcode.word (Opcode.ofByte? i.opcode)).toList := by
  cases h : Opcode.ofByte? i.opcode with
  | none => simp [text, h, Opcode.word]
  | some op =>
    have hmnemonic : ∀ c ∈ op.mnemonic.toList, decide (c ≠ ' ') = true :=
      fun c hc ↦ decide_eq_true (Opcode.of_mem_mnemonic hc).2.1
    rw [text, h, String.toList_append, List.takeWhile_append_of_pos hmnemonic, takeWhile_listed,
      List.append_nil, Opcode.word]

/-- The text of an instruction tells its byte. -/
theorem opcode_eq_of_text_eq {i j : Instruction} (h : i.text = j.text) : i.opcode = j.opcode := by
  have hop : Opcode.ofByte? i.opcode = Opcode.ofByte? j.opcode := by
    apply Opcode.word_inj.1
    apply String.toList_inj.1
    rw [← takeWhile_text, ← takeWhile_text, h]
  cases hi : Opcode.ofByte? i.opcode with
  | none =>
    -- The word is the same for all bytes that are no operations; the digits behind it are not.
    rw [text, text, ← hop, hi] at h
    exact Numeral.binary_inj.1 ((String.append_right_inj _).1 h)
  | some op =>
    rw [← Opcode.ofByte?_eq_some_iff.1 hi, ← Opcode.ofByte?_eq_some_iff.1 (hop.symm.trans hi)]

/-! ## The operands of a text -/

/-- The operand bytes that belong to an instruction by its format. -/
def operandBytes (i : Instruction) : List UInt8 := [i.a, i.b].take i.format.operandCount.toNat

end Instruction

theorem Operand.numbersIn_text (kind : Operand) (b : UInt8) :
    Numeral.numbersIn (kind.text b).toList = [b.toNat] := by
  have hdecimal : Numeral.numbersIn (Numeral.decimal b.toNat).toList = [b.toNat] := by
    rw [Numeral.decimal, String.toList_ofList, Numeral.numbersIn_decimalDigits]
  cases kind with
  | register =>
    rw [text, String.toList_append]
    exact (Numeral.numbersIn_cons (by decide) _).trans hdecimal
  | immediate => exact hdecimal

namespace Instruction

/-- Items show their numbers one after the other. -/
theorem numbersIn_listed (items : List String) :
    Numeral.numbersIn (listed items).toList =
      items.flatMap fun item ↦ Numeral.numbersIn item.toList := by
  induction items with
  | nil => rfl
  | cons item rest ih =>
    cases rest with
    | nil =>
      rw [toList_listed_singleton, Numeral.numbersIn_cons (by decide), List.flatMap_singleton]
    | cons next rest =>
      rw [toList_listed_cons_cons, Numeral.numbersIn_cons (by decide),
        Numeral.numbersIn_append_cons _ _ (by decide), List.flatMap_cons, ih]

theorem flatMap_numbersIn_zipWith (kinds : List Operand) (bytes : List UInt8) :
    ((List.zipWith Operand.text kinds bytes).flatMap fun item ↦ Numeral.numbersIn item.toList) =
      (bytes.take kinds.length).map UInt8.toNat := by
  induction kinds generalizing bytes with
  | nil => simp
  | cons kind kinds ih =>
    cases bytes with
    | nil => rfl
    | cons b bytes =>
      rw [List.zipWith_cons_cons, List.flatMap_cons, Operand.numbersIn_text, ih]
      rfl

section

variable {i : Instruction} {op : Opcode} (h : op.toByte = i.opcode)

include h

theorem length_operands_eq : op.operands.length = i.format.operandCount.toNat := by
  rw [op.length_operands, format, h]

/-- No byte but the operands of an operation goes into its text. -/
theorem text_eq_listed :
    i.text = op.mnemonic ++ listed (List.zipWith Operand.text op.operands i.operandBytes) := by
  have hbytes : List.zipWith Operand.text op.operands [i.a, i.b] =
      List.zipWith Operand.text op.operands i.operandBytes := by
    calc
      List.zipWith Operand.text op.operands [i.a, i.b] =
          (List.zipWith Operand.text op.operands [i.a, i.b]).take op.operands.length := by
        rw [List.take_of_length_le (by simp)]
      _ = List.zipWith Operand.text op.operands ([i.a, i.b].take op.operands.length) := by
        rw [List.take_zipWith, List.take_length]
      _ = _ := by rw [length_operands_eq h, operandBytes]
  rw [text, Opcode.ofByte?_eq_some_iff.2 h, ← hbytes]

/-- The operands of an operation are shown as they are. -/
theorem numbersIn_text :
    Numeral.numbersIn i.text.toList = i.operandBytes.map UInt8.toNat := by
  have hmnemonic : ∀ c ∈ op.mnemonic.toList, c.isDigit = false :=
    fun c hc ↦ (Opcode.of_mem_mnemonic hc).2.2
  rw [text_eq_listed h, String.toList_append, Numeral.numbersIn_append_of_no_digit hmnemonic,
    numbersIn_listed, flatMap_numbersIn_zipWith, length_operands_eq h, operandBytes,
    List.take_take, Nat.min_self]

end

example : (⟨0b10100010, 9, 200⟩ : Instruction).text = "MUL R9, R200" := by decide +kernel

/-! ## Texts and instructions -/

theorem operandBytes_eq_of_text_eq {i j : Instruction} {op : Opcode} (hop : op.toByte = i.opcode)
    (h : i.text = j.text) : i.operandBytes = j.operandBytes := by
  have hj : op.toByte = j.opcode := hop.trans (opcode_eq_of_text_eq h)
  have hvalues : i.operandBytes.map UInt8.toNat = j.operandBytes.map UInt8.toNat := by
    rw [← numbersIn_text hop, ← numbersIn_text hj, h]
  exact List.map_injective_iff.2 (fun _ _ ↦ UInt8.toNat_inj.1) hvalues

theorem text_eq_of_operandBytes_eq {i j : Instruction} (hopcode : i.opcode = j.opcode)
    (hoperands : ∀ op : Opcode, op.toByte = i.opcode → i.operandBytes = j.operandBytes) :
    i.text = j.text := by
  cases h : Opcode.ofByte? i.opcode with
  | none => rw [text, text, ← hopcode, h]
  | some op =>
    have hi : op.toByte = i.opcode := Opcode.ofByte?_eq_some_iff.1 h
    rw [text_eq_listed hi, text_eq_listed (hi.trans hopcode), hoperands op hi]

/-- Instructions have the same text if and only if the same byte heads them and, if that is an
operation, their operands are the same. All numbers in the text of an operation are its operands,
and they are shown unreduced. -/
theorem text_eq_text_iff (i j : Instruction) :
    (i.text = j.text ↔
      i.opcode = j.opcode ∧
        ∀ op : Opcode, op.toByte = i.opcode → i.operandBytes = j.operandBytes) ∧
    ∀ op : Opcode, op.toByte = i.opcode →
      Numeral.numbersIn i.text.toList = i.operandBytes.map UInt8.toNat := by
  refine ⟨⟨?_, ?_⟩, fun _ ↦ numbersIn_text⟩
  · intro h
    exact ⟨opcode_eq_of_text_eq h, fun _ hop ↦ operandBytes_eq_of_text_eq hop h⟩
  · intro h
    exact text_eq_of_operandBytes_eq h.1 h.2

end Instruction

end OctetMachine
