import OctetMachine.Fault
import OctetMachine.Journal
import OctetMachine.Machine
import OctetMachine.Output

/-!
# Computers

A computer is a machine with an output device and a journal. What is done to a computer has two
results: the computer as it then is, and an answer. A failure is an answer like any other, so all
that was done before it is found in the computer that comes with it.
-/

namespace OctetMachine

structure Computer (δ : Type) where
  machine : Machine
  outlet : Outlet δ
  journal : Journal := {}

namespace Computer

variable {δ : Type}

/-- A fresh computer. -/
def ofSettings (s : Settings) (device : δ) : Computer δ where
  machine := .ofSettings s
  outlet := { device }

def mapMachine (c : Computer δ) (f : Machine → Machine) : Computer δ :=
  { c with machine := f c.machine }

def log (c : Computer δ) (e : Event) : Computer δ := { c with journal := c.journal.log e }

/-! ## Loading -/

/-- Places an image in memory if it fits. -/
def loadImage (c : Computer δ) (image : List UInt8) : Computer δ × Except Program.LoadError Unit :=
  if Memory.size < image.length then (c, .error (.tooLarge image.length Memory.size))
  else ((c.mapMachine fun m ↦ m.place image).log (.imagePlaced image.length), .ok ())

/-- Loads a program text. -/
def loadText (c : Computer δ) (text : String) : Computer δ × Except Program.LoadError Unit :=
  match Program.image text with
  | .error e => (c, .error e)
  | .ok image => c.loadImage image

/-- Loads a program file, given its text or the reason why it has none. -/
def loadFile (c : Computer δ) (path : String) (text : Except String String) :
    Computer δ × Except Program.LoadError Unit :=
  match Program.imageOfFile path text with
  | .error e => (c, .error e)
  | .ok image => (c.log (.programRead path image.length)).loadImage image

end Computer

end OctetMachine
