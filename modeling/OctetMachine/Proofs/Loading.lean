import OctetMachine.Directory
import OctetMachine.Proofs.Concatenation
import OctetMachine.Proofs.Placement
import OctetMachine.Proofs.Spelling

/-!
# Loading of images

An image is written with the binary digits of each byte on a line of their own. The image of that
text is the one that was written, so loading it places its bytes in memory from address zero on and
keeps all else; it is refused only if it has more bytes than memory has cells. A load that is
refused, for whatever reason, changes nothing.
-/

namespace OctetMachine

namespace Program

/-- The text of an image. -/
def written (bytes : List UInt8) : String :=
  String.join (bytes.map fun b ↦ Numeral.binary b ++ "\n")

/-! ## Written images -/

theorem toList_written_cons (b : UInt8) (rest : List UInt8) :
    (written (b :: rest)).toList =
      Numeral.fixedDigits 2 8 b.toNat ++ '\n' :: (written rest).toList := by
  rw [written, List.map_cons, String.join_cons, String.toList_append, String.toList_append,
    Numeral.binary, String.toList_ofList, List.append_assoc]
  rfl

theorem number_concat (bits : List Bool) (b : Bool) :
    number (bits ++ [b]) = 2 * number bits + b.toNat := by
  rw [number, List.reverse_concat, List.map_cons, Nat.ofDigits_cons, number, Nat.add_comm]

/-- The last binary digits of a number that has no more of them. -/
theorem exists_bits_of_fixedDigits (width : Nat) {n : Nat} (h : n < 2 ^ width) :
    ∃ bits : List Bool, bits.length = width ∧ Numeral.fixedDigits 2 width n = bits.map digit ∧
      number bits = n := by
  induction width generalizing n with
  | zero => exact ⟨[], rfl, rfl, (Nat.lt_one_iff.1 h).symm⟩
  | succ width ih =>
    obtain ⟨bits, hlength, hdigits, hnumber⟩ := ih (n := n / 2) (by omega)
    have hlast : digit (n % 2 == 1) = Nat.digitChar (n % 2) := by
      rcases Nat.mod_two_eq_zero_or_one n with h | h <;> rw [h] <;> rfl
    refine ⟨bits ++ [n % 2 == 1], by simp [hlength], ?_, ?_⟩
    · rw [Numeral.fixedDigits, hdigits, List.map_append, List.map_singleton, hlast]
    · rw [number_concat, hnumber]
      rcases Nat.mod_two_eq_zero_or_one n with h | h <;> simp [h] <;> omega

theorem eq_digit_of_mem {bits : List Bool} {c : Char} (h : c ∈ bits.map digit) :
    c = '0' ∨ c = '1' := by
  obtain ⟨b, -, rfl⟩ := List.mem_map.1 h
  cases b
  · exact .inl rfl
  · exact .inr rfl

theorem code_map_digit (bits : List Bool) : code (bits.map digit) = bits.map digit := by
  have hblank : ∀ c ∈ bits.map digit, Text.isBlank c = false := by
    intro c hc
    rcases eq_digit_of_mem hc with rfl | rfl <;> rfl
  apply code_eq_self
  · intro hc
    rcases eq_digit_of_mem hc with h | h <;> cases h
  · exact fun c hc ↦ hblank c (List.mem_of_mem_head? hc)
  · exact fun c hc ↦ hblank c (List.mem_of_mem_getLast? hc)

theorem lines_map_digit (bits : List Bool) : lines (bits.map digit) = [bits.map digit] := by
  apply List.splitOn_eq_singleton
  intro hc
  rcases eq_digit_of_mem hc with h | h <;> cases h

/-- A line of digits adds their number to the image. -/
theorem imageOfLine_map_digit (n : Nat) {bits : List Bool} (hne : bits ≠ [])
    (hfits : number bits < 256) :
    imageOfLine n (bits.map digit) = .ok [UInt8.ofNat (number bits)] := by
  obtain ⟨b, rest, rfl⟩ := List.exists_cons_of_ne_nil hne
  let s : Spelling := ⟨false, none, ⟨⟨b, rest⟩, []⟩⟩
  have htext : s.text = (b :: rest).map digit := List.append_nil _
  have hvalue : s.value = number (b :: rest) := congrArg number (List.append_nil (b :: rest))
  have hread : readLiteral ((b :: rest).map digit) = .ok (UInt8.ofNat (number (b :: rest))) := by
    rw [← htext, readLiteral_text, hvalue, if_pos hfits]
  rw [imageOfLine, code_map_digit, if_neg (by simp), hread]

theorem imageOfLines_written (n : Nat) (bytes : List UInt8) :
    imageOfLines n (lines (written bytes).toList) = .ok bytes := by
  induction bytes generalizing n with
  | nil => rfl
  | cons b rest ih =>
    obtain ⟨bits, hlength, hdigits, hnumber⟩ := exists_bits_of_fixedDigits 8 b.toNat_lt
    have hne : bits ≠ [] := by
      rintro rfl
      cases hlength
    have hline : imageOfLine n (bits.map digit) = .ok [b] := by
      rw [imageOfLine_map_digit n hne (hnumber ▸ b.toNat_lt), hnumber, UInt8.ofNat_toNat]
    rw [toList_written_cons, hdigits, lines_append, lines_map_digit, List.singleton_append,
      imageOfLines_cons, hline, ih]
    rfl

/-- What was written is read. -/
theorem image_written (bytes : List UInt8) : image (written bytes) = .ok bytes :=
  imageOfLines_written 1 bytes

end Program

/-- A file holds the text whose bytes it was given. -/
theorem textOfBytes_toUTF8 (text : String) : textOfBytes text.toUTF8 = .ok text := by
  have hread : String.fromUTF8? text.toUTF8 = some text := dif_pos text.isValidUTF8
  rw [textOfBytes, hread]

theorem Directory.readText_of_read {d : Directory} {path text : String}
    (h : d.read path = .ok text.toUTF8) : d.readText path = .ok text := by
  rw [readText, h, ← textOfBytes_toUTF8]

namespace Computer

open Program (written)

variable {δ : Type}

/-! ## Computers with an image in their memory -/

/-- `d` is `c` with bytes in its memory from address zero on. -/
structure Loaded (c d : Computer δ) (bytes : List UInt8) : Prop where
  image : ∀ (i : Nat) (h : i < bytes.length), d.machine.memory.read (UInt8.ofNat i) = bytes[i]
  rest : ∀ address : UInt8, bytes.length ≤ address.toNat →
    d.machine.memory.read address = c.machine.memory.read address
  others : d.machine = { c.machine with memory := d.machine.memory }
  outlet : d.outlet = c.outlet

/-- What comes of a load of bytes into `c`. -/
structure Loads (c : Computer δ) (bytes : List UInt8)
    (loaded : Computer δ × Except Program.LoadError Unit) : Prop where
  succeeds_iff : loaded.2 = .ok () ↔ bytes.length ≤ 256
  fits : bytes.length ≤ 256 → c.Loaded loaded.1 bytes
  tooLarge : 256 < bytes.length → loaded.2 = .error (.tooLarge bytes.length 256)

theorem loads_loadImage (c : Computer δ) (bytes : List UInt8) :
    c.Loads bytes (c.loadImage bytes) := by
  have hplaces := c.places_loadImage bytes
  rcases Nat.lt_or_ge 256 bytes.length with hlarge | hfits
  · have hload := loadImage_of_lt (c := c) hlarge
    refine ⟨⟨fun h ↦ ?_, fun h ↦ ?_⟩, fun h ↦ ?_, fun _ ↦ congrArg Prod.snd hload⟩
    · rw [hload] at h
      cases h
    · exact absurd h (Nat.not_le_of_lt hlarge)
    · exact absurd h (Nat.not_le_of_lt hlarge)
  · have hload := loadImage_of_le (c := c) hfits
    have hread (address : UInt8) : (c.loadImage bytes).1.machine.memory.read address =
        bytes[address.toNat]?.getD (c.machine.memory.read address) := by
      rw [hload]
      exact Memory.read_load _ _ _
    refine ⟨⟨fun _ ↦ hfits, fun _ ↦ congrArg Prod.snd hload⟩,
      fun _ ↦ ⟨?_, ?_, hplaces.machine_eq, hplaces.outlet⟩,
      fun h ↦ absurd h (Nat.not_lt_of_le hfits)⟩
    · intro i hi
      have hnat : (UInt8.ofNat i).toNat = i :=
        UInt8.toNat_ofNat_of_lt (Nat.lt_of_lt_of_le hi hfits)
      rw [hread, hnat, List.getElem?_eq_getElem hi, Option.getD_some]
    · intro address haddress
      rw [hread, List.getElem?_eq_none haddress, Option.getD_none]

theorem Loads.log {c : Computer δ} {bytes : List UInt8} {e : Event}
    {loaded : Computer δ × Except Program.LoadError Unit} (h : (c.log e).Loads bytes loaded) :
    c.Loads bytes loaded := by
  refine ⟨h.succeeds_iff, fun hfits ↦ ?_, h.tooLarge⟩
  have hplaced := h.fits hfits
  exact ⟨hplaced.image, hplaced.rest, hplaced.others, hplaced.outlet⟩

theorem loads_loadText (c : Computer δ) (bytes : List UInt8) :
    c.Loads bytes (c.loadText (written bytes)) := by
  rw [loadText, Program.image_written]
  exact c.loads_loadImage bytes

theorem loads_loadFile (c : Computer δ) (path : String) (bytes : List UInt8) :
    c.Loads bytes (c.loadFile path (.ok (written bytes))) := by
  rw [loadFile, Program.imageOfFile, Program.image_written]
  exact (loads_loadImage _ bytes).log

/-! ## Loads that are refused -/

theorem loadImage_of_error {c : Computer δ} {bytes : List UInt8} {e : Program.LoadError}
    (h : (c.loadImage bytes).2 = .error e) : (c.loadImage bytes).1 = c := by
  rcases Nat.lt_or_ge 256 bytes.length with hlarge | hfits
  · rw [loadImage_of_lt hlarge]
  · rw [loadImage_of_le hfits] at h
    cases h

theorem loadText_of_error {c : Computer δ} {text : String} {e : Program.LoadError}
    (h : (c.loadText text).2 = .error e) : (c.loadText text).1 = c := by
  rcases c.loadText_cases text with ⟨e', -, hload⟩ | ⟨bytes, -, hload⟩
  · rw [hload]
  · rw [hload] at h ⊢
    exact loadImage_of_error h

/-- A file that was read leaves an event in the journal, even if its image is too large. -/
theorem loadFile_of_error {c : Computer δ} {path : String} {text : Except String String}
    {e : Program.LoadError} (h : (c.loadFile path text).2 = .error e) :
    (c.loadFile path text).1.machine = c.machine ∧ (c.loadFile path text).1.outlet = c.outlet := by
  rcases c.loadFile_cases path text with ⟨e', -, hload⟩ | ⟨bytes, -, hload⟩
  · rw [hload]
    exact ⟨rfl, rfl⟩
  · rw [hload] at h ⊢
    rw [loadImage_of_error h]
    exact ⟨rfl, rfl⟩

/-- An image that is written as a text and loaded, from the text or from a file, is in memory as it
was, and all else is kept; it is refused if and only if memory has not enough cells for it. No load
of any text or file that is refused changes the machine or its output. -/
theorem load_of_written (c : Computer δ) (bytes : List UInt8) :
    c.Loads bytes (c.loadText (written bytes)) ∧
      (∀ (d : Directory) (path : String), d.read path = .ok (written bytes).toUTF8 →
        c.Loads bytes (c.loadFile path (d.readText path))) ∧
      (∀ text e, (c.loadText text).2 = .error e → (c.loadText text).1 = c) ∧
      ∀ path text e, (c.loadFile path text).2 = .error e →
        (c.loadFile path text).1.machine = c.machine ∧
          (c.loadFile path text).1.outlet = c.outlet := by
  refine ⟨c.loads_loadText bytes, ?_, fun _ _ ↦ loadText_of_error, fun _ _ _ ↦ loadFile_of_error⟩
  intro d path hread
  rw [Directory.readText_of_read hread]
  exact c.loads_loadFile path bytes

/-- Three bytes in a file of a folder, and a text of 257 bytes. -/
theorem load_of_written_of_folder :
    let bytes : List UInt8 := [130, 0, 255]
    let d : Directory := { files := [("a/b", (written bytes).toUTF8)] }
    let c := ofSettings {} ({} : Container)
    let loaded := c.loadFile "a/b" (d.readText "a/b")
    loaded.2 = .ok () ∧ loaded.1.machine.memory.read 2 = 255 ∧
      (c.loadText (written (List.replicate 257 1))).2 = .error (.tooLarge 257 256) := by
  intro bytes d c loaded
  have hread : d.read "a/b" = .ok (written bytes).toUTF8 := by decide +kernel
  obtain ⟨-, hfile, -⟩ := load_of_written c bytes
  have hloads : c.Loads bytes loaded := hfile d "a/b" hread
  obtain ⟨hlarge, -⟩ := load_of_written c (List.replicate 257 1)
  refine ⟨hloads.succeeds_iff.2 (by decide), ?_, ?_⟩
  · exact (hloads.fits (by decide)).image 2 (by decide)
  · have hrefused := hlarge.tooLarge (by rw [List.length_replicate]; decide)
    rwa [List.length_replicate] at hrefused

end Computer

end OctetMachine
