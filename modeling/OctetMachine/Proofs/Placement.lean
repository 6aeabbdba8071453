import OctetMachine.Computer

/-!
# Placement of images

An image that fits is placed in memory, and one that does not is refused. A text and a file are
loaded by way of their images. So whatever is loaded, and whether it is refused or not, nothing
changes but the memory and the events in the journal.
-/

namespace OctetMachine.Computer

variable {δ : Type} {c d : Computer δ}

theorem loadImage_of_le {image : List UInt8} (h : image.length ≤ 256) :
    c.loadImage image =
      ((c.mapMachine fun m ↦ m.place image).log (.imagePlaced image.length), .ok ()) :=
  if_neg (Nat.not_lt_of_le h)

theorem loadImage_of_lt {image : List UInt8} (h : 256 < image.length) :
    c.loadImage image = (c, .error (.tooLarge image.length 256)) :=
  if_pos h

theorem loadText_cases (c : Computer δ) (text : String) :
    (∃ e, Program.image text = .error e ∧ c.loadText text = (c, .error e)) ∨
    ∃ image, Program.image text = .ok image ∧ c.loadText text = c.loadImage image := by
  rw [loadText]
  cases Program.image text with
  | error e => exact .inl ⟨e, rfl, rfl⟩
  | ok image => exact .inr ⟨image, rfl, rfl⟩

theorem loadFile_cases (c : Computer δ) (path : String) (text : Except String String) :
    (∃ e, Program.imageOfFile path text = .error e ∧ c.loadFile path text = (c, .error e)) ∨
    ∃ image, Program.imageOfFile path text = .ok image ∧
      c.loadFile path text = (c.log (.programRead path image.length)).loadImage image := by
  rw [loadFile]
  cases Program.imageOfFile path text with
  | error e => exact .inl ⟨e, rfl, rfl⟩
  | ok image => exact .inr ⟨image, rfl, rfl⟩

/-- `d` is `c`, perhaps with an image in its memory and with more events in its journal. -/
structure Places (c d : Computer δ) : Prop where
  machine : d.machine = c.machine ∨ ∃ image, d.machine = c.machine.place image
  outlet : d.outlet = c.outlet
  traceLines : d.journal.traceLines = c.journal.traceLines

theorem Places.refl (c : Computer δ) : c.Places c := ⟨.inl rfl, rfl, rfl⟩

/-- An image is placed in memory and nowhere else. -/
theorem Places.machine_eq (h : c.Places d) :
    d.machine = { c.machine with memory := d.machine.memory } := by
  rcases h.machine with hsame | ⟨image, hplaced⟩
  · rw [hsame]
  · rw [hplaced, Machine.place]

theorem Places.log (h : c.Places d) (e : Event) : c.Places (d.log e) :=
  ⟨h.machine, h.outlet, (Journal.traceLines_log d.journal e).trans h.traceLines⟩

theorem places_loadImage (c : Computer δ) (image : List UInt8) :
    c.Places (c.loadImage image).1 := by
  rcases Nat.lt_or_ge 256 image.length with hlarge | hfits
  · rw [loadImage_of_lt hlarge]
    exact .refl c
  · have hplaced : c.Places (c.mapMachine fun m ↦ m.place image) := by
      refine ⟨.inr ⟨image, rfl⟩, ?_, ?_⟩
      · simp only [mapMachine]
      · simp only [mapMachine]
    rw [loadImage_of_le hfits]
    exact hplaced.log _

theorem places_loadText (c : Computer δ) (text : String) : c.Places (c.loadText text).1 := by
  rcases c.loadText_cases text with ⟨e, -, hload⟩ | ⟨image, -, hload⟩
  · rw [hload]
    exact .refl c
  · rw [hload]
    exact c.places_loadImage image

theorem places_loadFile (c : Computer δ) (path : String) (text : Except String String) :
    c.Places (c.loadFile path text).1 := by
  rcases c.loadFile_cases path text with ⟨e, -, hload⟩ | ⟨image, -, hload⟩
  · rw [hload]
    exact .refl c
  · obtain ⟨hmachine, houtlet, hlines⟩ :=
      (c.log (.programRead path image.length)).places_loadImage image
    rw [hload]
    exact ⟨hmachine, houtlet, hlines.trans (Journal.traceLines_log _ _)⟩

theorem places_of_loadFile {path : String} {text : Except String String}
    {result : Except Program.LoadError Unit} (h : c.loadFile path text = (d, result)) :
    c.Places d := by
  have hplaces := c.places_loadFile path text
  rwa [h] at hplaces

end OctetMachine.Computer
