import OctetMachine.Proofs.Halting
import OctetMachine.Proofs.Options
import OctetMachine.Proofs.Printing
import OctetMachine.Proofs.Resumption
import OctetMachine.Proofs.Schema
import OctetMachine.Proofs.Silence

/-!
# Outcomes of commands

The outcome of a command is its exit code and its output. The settings decide it first, then the
program file, and then the run of a computer that is made from the stack pointer and the budget of
the settings and from the image of the program. Traces, statistics and logs have no part in it, so
commands that differ in these alone have the same outcome, and none of them ends when another does
not.
-/

namespace OctetMachine

open Device (Flushes)
open Retirement (items)

namespace Computer

variable {δ : Type}

/-- The exit code for the result of a run. -/
def exitCode : Except Fault Unit → UInt8
  | .ok () => 0
  | .error _ => 1

/-- A fresh computer, without tracing, with an image in its memory. -/
def plain (settings : Settings) (image : List UInt8) : Computer Container :=
  (ofSettings { stackPointer := settings.stackPointer, budget := settings.budget } {}).mapMachine
    fun m ↦ m.place image

variable [Device δ]

/-- An execution goes on for `k` steps and no further. -/
structure StopsAfter (c : Computer δ) (k : Nat) : Prop where
  course : ∀ i < k, (c.steps i).Proceeds
  stops : ¬ (c.steps k).Proceeds

/-- The first `n` steps succeed, there are no more of them than the budget of the computer, and
among what they retire is a halt. -/
structure HaltsWithin (c : Computer δ) (n : Nat) : Prop where
  succeeds : ∀ i < n, (c.steps i).step.2 = .ok ()
  allowed : ∀ limit, c.machine.budget = some limit → n ≤ limit.toNat
  halt : ∃ r ∈ c.history n, r.op = .hlt

/-- The outcome of a run that ends before its fuel does. -/
def outcome? (c : Computer δ) (fuel : Nat) : Option (UInt8 × List UInt8) :=
  (c.run? fuel).map fun p ↦ (exitCode p.2, p.1.outlet.received.toList)

/-! ## Runs to a halt -/

theorem halted_steps_iff {c : Computer δ} (hfresh : c.machine.halted = false) (n : Nat) :
    (c.steps n).machine.halted = true ↔ ∃ r ∈ c.history n, r.op = .hlt :=
  (haltsAfter_steps (.of_running hfresh) n).iff_mem

/-- A fresh computer comes to a halt within its budget if and only if its execution does. -/
theorem exists_haltsWithin_iff {c : Computer δ} (hfresh : c.machine.halted = false)
    (hretired : c.retired = 0) :
    (∃ n, c.HaltsWithin n) ↔
      ∃ k, (∀ i < k, (c.steps i).Proceeds) ∧ (c.steps k).machine.halted = true := by
  constructor
  · rintro ⟨n, hn⟩
    have hhalts : ∃ k, (c.steps k).machine.halted = true :=
      ⟨n, (halted_steps_iff hfresh n).2 hn.halt⟩
    -- Steps of a halted computer succeed as well, so the course ends at the first halt.
    have hle : Nat.find hhalts ≤ n := Nat.find_min' hhalts ((halted_steps_iff hfresh n).2 hn.halt)
    refine ⟨Nat.find hhalts, ?_, Nat.find_spec hhalts⟩
    apply proceeds_of_succeeds
    · exact fun i hi ↦ Bool.eq_false_iff.2 (Nat.find_min hhalts hi)
    · intro limit hbudget i hi
      rw [hretired, Nat.zero_add]
      exact Nat.lt_of_lt_of_le hi (Nat.le_trans hle (hn.allowed limit hbudget))
    · exact fun i hi ↦ hn.succeeds i (Nat.lt_of_lt_of_le hi hle)
  · rintro ⟨k, hcourse, hhalted⟩
    refine ⟨k, fun i hi ↦ (hcourse i hi).succeeds, ?_, (halted_steps_iff hfresh k).1 hhalted⟩
    intro limit hbudget
    -- The last step was allowed, so all before it had left something of the budget.
    match k with
    | 0 => exact Nat.zero_le _
    | k + 1 =>
      have hbefore : ∀ i < k, (c.steps i).Proceeds := fun i hi ↦ hcourse i (Nat.lt_succ_of_lt hi)
      have hlt := (hcourse k k.lt_succ_self).retired_lt ((budget_steps hbefore).trans hbudget)
      rw [retired_steps hbefore hbudget, hretired, Nat.zero_add] at hlt
      exact hlt

/-! ## Outcomes of runs -/

/-- A run on a device that takes everything ends where the execution stops. Its exit code tells
whether the machine is halted there. -/
theorem StopsAfter.outcome? {c : Computer δ} {k : Nat} (h : c.StopsAfter k)
    (hfree : c.outlet.Holds ⊤) (hflushes : Flushes c.outlet.device) (fuel : Nat) :
    c.outcome? fuel =
      if fuel ≤ k then none
      else some (if (c.steps k).machine.halted then 0 else 1,
        c.outlet.received.toList ++ items (c.history k)) := by
  obtain ⟨e, ending, hend⟩ := (c.steps k).proceeds_or_ends.resolve_left h.stops
  have houtlet : e.outlet = (c.steps k).outlet := hend.outlet_eq (holds_top_steps hfree k)
  have hresult : (e.finish ending).2 = ending := by
    apply finish_of_flushes
    rw [houtlet]
    exact flushes_steps hflushes k
  have hcode : exitCode ending = if (c.steps k).machine.halted then 0 else 1 := by
    cases hend with
    | halted halted => rw [if_pos halted, exitCode]
    | spent running => rw [running]; rfl
    | failed running => rw [running]; rfl
  have hreceived : (e.finish ending).1.outlet.received.toList =
      c.outlet.received.toList ++ items (c.history k) := by
    rw [outlet_finish, Outlet.received_flush, houtlet, received_steps hfree]
  rw [Computer.outcome?, run?_eq h.course hend]
  split
  · rfl
  · rw [Option.map_some, hresult, hcode, hreceived]

theorem exists_stopsAfter_of_outcome? {c : Computer δ} {fuel : Nat} {o : UInt8 × List UInt8}
    (h : c.outcome? fuel = some o) : ∃ k < fuel, c.StopsAfter k := by
  obtain ⟨⟨c', result⟩, hrun, -⟩ := Option.map_eq_some_iff.1 h
  obtain ⟨k, hk, e, ending, hcourse, hend, -⟩ := exists_ends_of_run? hrun
  exact ⟨k, hk, hcourse, hend.not_proceeds⟩

theorem StopsAfter.unique {c : Computer δ} {k l : Nat} (hk : c.StopsAfter k)
    (hl : c.StopsAfter l) : k = l := by
  apply Nat.le_antisymm
  · exact Nat.le_of_not_lt fun hlt ↦ hl.stops (hk.course l hlt)
  · exact Nat.le_of_not_lt fun hlt ↦ hk.stops (hl.course k hlt)

/-- The machine of a fresh computer is halted where its execution stops if and only if the computer
comes to a halt within its budget. -/
theorem StopsAfter.halted_iff {c : Computer δ} {k : Nat} (h : c.StopsAfter k)
    (hfresh : c.machine.halted = false) (hretired : c.retired = 0) :
    (c.steps k).machine.halted = true ↔ ∃ n, c.HaltsWithin n := by
  rw [exists_haltsWithin_iff hfresh hretired]
  constructor
  · exact fun hhalted ↦ ⟨k, h.course, hhalted⟩
  · rintro ⟨l, hcourse, hhalted⟩
    have hl : c.StopsAfter l := ⟨hcourse, (Ends.halted hhalted).not_proceeds⟩
    rwa [h.unique hl]

theorem outcome?_silent (c : Computer δ) (fuel : Nat) :
    c.silent.outcome? fuel = c.outcome? fuel := by
  rw [outcome?, run?_silent, Option.map_map]
  rfl

/-! ## Loading -/

omit [Device δ]

theorem loadFile_of_image {c d : Computer δ} {path text : String} {image : List UInt8}
    {result : Except Program.LoadError Unit} (h : c.loadFile path (.ok text) = (d, result))
    (himage : Program.image text = .ok image) (hfits : image.length ≤ 256) :
    result = .ok () ∧ d.silent = c.silent.mapMachine fun m ↦ m.place image := by
  have hplaced : c.loadFile path (.ok text) =
      (((c.log (.programRead path image.length)).mapMachine fun m ↦ m.place image).log
        (.imagePlaced image.length), .ok ()) := by
    rw [loadFile, Program.imageOfFile, himage]
    exact loadImage_of_le hfits
  cases h.symm.trans hplaced
  refine ⟨rfl, ?_⟩
  rw [silent_log]
  simp only [silent, mapMachine, Machine.place, log]

theorem exists_image_of_loadFile {c : Computer δ} {path : String} {text : Except String String}
    (h : (c.loadFile path text).2 = .ok ()) :
    ∃ program image, text = .ok program ∧ Program.image program = .ok image ∧
      image.length ≤ 256 := by
  rcases c.loadFile_cases path text with ⟨e, -, hload⟩ | ⟨image, himage, hload⟩
  · rw [hload] at h
    cases h
  · cases text with
    | error => cases himage
    | ok program =>
      refine ⟨program, image, rfl, himage, ?_⟩
      by_contra hlarge
      rw [hload, loadImage_of_lt (Nat.lt_of_not_le hlarge)] at h
      cases h

end Computer

namespace CommandLine

open Computer (plain)

/-- What a command comes to for those who do not read its messages. -/
def Report.outcome (r : Report) : UInt8 × List UInt8 := (r.code, r.output)

namespace Libraries

variable {α π : Type} (l : Libraries α π)

/-- The reading of a log filter comes to an answer, be the text a filter or not. -/
def ReturnsOn (text : String) : Prop := ∃ filter, l.readFilter text = some filter

/-- The settings in the file of an invocation, or those of a bare machine without one. -/
def fileSettings (i : Invocation π) (read : π → Except String String) :
    Except Settings.ReadError Settings :=
  match i.settingsFile with
  | none => .ok {}
  | some path => Settings.ofFile l.readSettings (l.pathText path) (read path)

/-- An invocation gets its settings, and its program as an image that fits in memory. -/
structure Loads (i : Invocation π) (read : π → Except String String) (settings : Settings)
    (image : List UInt8) : Prop where
  settings : l.fileSettings i read = .ok settings
  program : ∃ text, read i.program = .ok text ∧ Program.image text = .ok image
  fits : image.length ≤ 256

/-- Two invocations, each with its files, that differ in nothing but diagnostics: in the options for
them, in the flag for traces in the settings, and in the errors of settings that cannot be had. -/
structure Alike (i : Invocation π) (read : π → Except String String) (i' : Invocation π)
    (read' : π → Except String String) : Prop where
  settings : (l.fileSettings i' read').toOption.map (fun s ↦ { s with tracing := false }) =
    (l.fileSettings i read).toOption.map fun s ↦ { s with tracing := false }
  program : read' i'.program = read i.program

variable {l}

theorem exists_filter_of_returnsOn {text : String} (h : l.ReturnsOn text) :
    ∃ filter, l.filter? text = some filter := by
  obtain ⟨filter, hfilter⟩ := h
  exact ⟨_, congrArg (Option.map _) hfilter⟩

theorem settingsOf_eq (i : Invocation π) (read : π → Except String String) :
    l.settingsOf i read =
      (l.fileSettings i read).map fun s ↦ { s with tracing := s.tracing || i.tracing } := by
  unfold settingsOf fileSettings
  cases i.settingsFile with
  | none => rfl
  | some path => rfl

theorem fileSettings_of_text {i : Invocation π} {read : π → Except String String} {path : π}
    {text : String} (hfile : i.settingsFile = some path) (hread : read path = .ok text) :
    l.fileSettings i read = (l.readSettings text).mapError .invalid := by
  simp only [fileSettings, hfile, hread, Settings.ofFile]

/-- A settings file with a document in it gives settings exactly if the document has its form. -/
theorem exists_fileSettings_iff (hsettings : Settings.ReadsDocuments l.readSettings)
    {i : Invocation π} {read : π → Except String String} {path : π} {d : JsonText.Document}
    (hfile : i.settingsFile = some path) (hread : read path = .ok d.text)
    (hd : Settings.GeneralIsObject d) :
    (∃ s, l.fileSettings i read = .ok s) ↔ Settings.Conforms d := by
  rw [fileSettings_of_text hfile hread]
  exact (hsettings.mapError _).accepts d hd

theorem gives_of_fileSettings (hsettings : Settings.ReadsDocuments l.readSettings)
    {i : Invocation π} {read : π → Except String String} {path : π} {d : JsonText.Document}
    (hfile : i.settingsFile = some path) (hread : read path = .ok d.text)
    (hd : Settings.GeneralIsObject d) {s : Settings} (hs : l.fileSettings i read = .ok s) :
    Settings.Gives d s := by
  rw [fileSettings_of_text hfile hread] at hs
  exact (hsettings.mapError _).gives d s hd hs

theorem readsDocuments_ofTexts (report : Stop → Report) (describe : JsonText.Problem → String)
    (readFilter : String → Option (Option Journal.Filter)) (warnings : Journal.Filter) :
    Settings.ReadsDocuments (ofTexts report describe readFilter warnings).readSettings :=
  Settings.readsDocuments_ofText.mapError describe

/-- A launch fails on the settings, or else on the program, or else leaves a computer with the
program in memory. -/
theorem launch_cases (l : Libraries α π) (filter : Journal.Filter) (i : Invocation π)
    (read : π → Except String String) :
    (∃ e, l.fileSettings i read = .error e ∧
      l.launch filter i read = .error { code := 1, messages := fatal e.message }) ∨
    (∃ messages, (∀ settings image, ¬ l.Loads i read settings image) ∧
      l.launch filter i read = .error { code := 1, messages }) ∨
    ∃ settings image c, l.Loads i read settings image ∧ l.launch filter i read = .ok c ∧
      c.silent = plain settings image := by
  unfold launch
  rw [settingsOf_eq]
  cases hsettings : l.fileSettings i read with
  | error e => exact .inl ⟨e, rfl, rfl⟩
  | ok settings =>
    dsimp only [Except.map]
    split
    next c hload =>
      obtain ⟨text, image, htext, himage, hfits⟩ :=
        Computer.exists_image_of_loadFile (congrArg Prod.snd hload)
      refine .inr (.inr ⟨settings, image, c, ⟨hsettings, ⟨text, htext, himage⟩, hfits⟩, rfl, ?_⟩)
      rw [htext] at hload
      exact (Computer.loadFile_of_image hload himage hfits).2
    next c e hload =>
      refine .inr (.inl ⟨_, ?_, rfl⟩)
      rintro - image ⟨-, ⟨text, htext, himage⟩, hfits⟩
      rw [htext] at hload
      cases (Computer.loadFile_of_image hload himage hfits).1

theorem Loads.unique {i : Invocation π} {read : π → Except String String}
    {settings settings' : Settings} {image image' : List UInt8}
    (h : l.Loads i read settings image) (h' : l.Loads i read settings' image') :
    settings' = settings ∧ image' = image := by
  obtain ⟨text, htext, himage⟩ := h.program
  obtain ⟨text', htext', himage'⟩ := h'.program
  constructor
  · exact Except.ok.inj (h'.settings.symm.trans h.settings)
  · cases htext'.symm.trans htext
    exact Except.ok.inj (himage'.symm.trans himage)

/-! ## Commands -/

section

variable {arguments : List α} {i : Invocation π} {read : π → Except String String}
  {settings : Settings} {image : List UInt8}

theorem outcome_of_loads (hi : l.readArguments arguments = .ok i)
    (hfilter : l.ReturnsOn i.logFilter) (h : l.Loads i read settings image) (fuel : Nat)
    (seconds : String) :
    (l.execute? fuel seconds arguments read).map Report.outcome =
      (plain settings image).outcome? fuel := by
  obtain ⟨filter, hfilter⟩ := exists_filter_of_returnsOn hfilter
  rcases l.launch_cases filter i read with
    ⟨e, hsettings, -⟩ | ⟨messages, hnone, -⟩ | ⟨settings', image', c, hloads, hlaunch, hsilent⟩
  · cases hsettings.symm.trans h.settings
  · exact absurd h (hnone settings image)
  · obtain ⟨rfl, rfl⟩ := h.unique hloads
    rw [← hsilent, Computer.outcome?_silent]
    simp only [execute?, hi, hfilter, hlaunch, Option.map_map]
    rfl

theorem outcome_of_not_loads (hi : l.readArguments arguments = .ok i)
    (hfilter : l.ReturnsOn i.logFilter) (h : ∀ settings image, ¬ l.Loads i read settings image)
    (fuel : Nat) (seconds : String) :
    (l.execute? fuel seconds arguments read).map Report.outcome = some (1, []) := by
  obtain ⟨filter, hfilter⟩ := exists_filter_of_returnsOn hfilter
  rcases l.launch_cases filter i read with
    ⟨e, -, hlaunch⟩ | ⟨messages, -, hlaunch⟩ | ⟨settings, image, c, hloads, -⟩
  · simp only [execute?, hi, hfilter, hlaunch]
    rfl
  · simp only [execute?, hi, hfilter, hlaunch]
    rfl
  · exact absurd hloads (h settings image)

/-- The outcome of a command whose computer was made is what the computer comes to. -/
theorem outcome_of_stopsAfter (hi : l.readArguments arguments = .ok i)
    (hfilter : l.ReturnsOn i.logFilter) (h : l.Loads i read settings image) {k : Nat}
    (hk : (plain settings image).StopsAfter k) (fuel : Nat) (seconds : String) :
    (l.execute? fuel seconds arguments read).map Report.outcome =
      if fuel ≤ k then none
      else some (if ((plain settings image).steps k).machine.halted then 0 else 1,
        items ((plain settings image).history k)) := by
  rw [outcome_of_loads hi hfilter h,
    hk.outcome? (Container.holds_left {}) (Container.device_flushes rfl) fuel]
  rfl

theorem exists_stopsAfter_of_execute? (hi : l.readArguments arguments = .ok i)
    (hfilter : l.ReturnsOn i.logFilter) (h : l.Loads i read settings image) {fuel : Nat}
    {seconds : String} {report : Report}
    (hreport : l.execute? fuel seconds arguments read = some report) :
    ∃ k < fuel, (plain settings image).StopsAfter k := by
  have houtcome := outcome_of_loads hi hfilter h fuel seconds
  rw [hreport] at houtcome
  exact Computer.exists_stopsAfter_of_outcome? houtcome.symm

/-- The exit code is zero or one, and it is zero if and only if everything was loaded and came to a
halt. -/
theorem code_of_execute? (hi : l.readArguments arguments = .ok i)
    (hfilter : l.ReturnsOn i.logFilter) {fuel : Nat} {seconds : String} {report : Report}
    (hreport : l.execute? fuel seconds arguments read = some report) :
    (report.code = 0 ∨ report.code = 1) ∧
      (report.code = 0 ↔ ∃ settings image, l.Loads i read settings image ∧
        ∃ n, (plain settings image).HaltsWithin n) := by
  by_cases hloads : ∃ settings image, l.Loads i read settings image
  · obtain ⟨settings, image, h⟩ := hloads
    obtain ⟨k, hk, hstops⟩ := exists_stopsAfter_of_execute? hi hfilter h hreport
    have houtcome := outcome_of_stopsAfter hi hfilter h hstops fuel seconds
    rw [hreport, if_neg (Nat.not_le_of_lt hk)] at houtcome
    have hcode : report.code = if ((plain settings image).steps k).machine.halted then 0 else 1 :=
      congrArg Prod.fst (Option.some.inj houtcome)
    have hhalts : ((plain settings image).steps k).machine.halted = true ↔
        ∃ settings image, l.Loads i read settings image ∧
          ∃ n, (plain settings image).HaltsWithin n := by
      rw [hstops.halted_iff rfl rfl]
      constructor
      · exact fun hn ↦ ⟨settings, image, h, hn⟩
      · rintro ⟨settings', image', h', hn⟩
        obtain ⟨rfl, rfl⟩ := h.unique h'
        exact hn
    rw [hcode, ← hhalts]
    cases ((plain settings image).steps k).machine.halted with
    | false => decide
    | true => decide
  · have hnone : ∀ settings image, ¬ l.Loads i read settings image :=
      fun settings image h ↦ hloads ⟨settings, image, h⟩
    have houtcome := outcome_of_not_loads hi hfilter hnone fuel seconds
    rw [hreport] at houtcome
    have hcode : report.code = 1 := congrArg Prod.fst (Option.some.inj houtcome)
    refine ⟨.inr hcode, ?_⟩
    rw [hcode]
    constructor
    · intro hzero
      cases hzero
    · rintro ⟨settings, image, h, -⟩
      exact absurd h (hnone settings image)

end

section

variable {arguments arguments' : List α} {i i' : Invocation π}
  {read read' : π → Except String String}

theorem Alike.symm (h : l.Alike i read i' read') : l.Alike i' read' i read :=
  ⟨h.settings.symm, h.program.symm⟩

theorem Alike.loads (h : l.Alike i read i' read') {settings : Settings} {image : List UInt8}
    (hloads : l.Loads i read settings image) :
    ∃ settings', l.Loads i' read' settings' image ∧
      plain settings' image = plain settings image := by
  have hsettings := h.settings
  rw [hloads.settings] at hsettings
  cases hread : l.fileSettings i' read' with
  | error => simp [hread, Except.toOption] at hsettings
  | ok settings' =>
    rw [hread] at hsettings
    obtain ⟨hstack, hbudget⟩ : settings'.stackPointer = settings.stackPointer ∧
        settings'.budget = settings.budget := by
      simpa [Except.toOption] using hsettings
    obtain ⟨text, htext, himage⟩ := hloads.program
    refine ⟨settings', ⟨hread, ⟨text, h.program.trans htext, himage⟩, hloads.fits⟩, ?_⟩
    rw [plain, plain, hstack, hbudget]

/-- Commands that differ in nothing but diagnostics have the same outcome, or none of them ends. -/
theorem Alike.outcome_eq (h : l.Alike i read i' read') (hi : l.readArguments arguments = .ok i)
    (hfilter : l.ReturnsOn i.logFilter) (hi' : l.readArguments arguments' = .ok i')
    (hfilter' : l.ReturnsOn i'.logFilter) (fuel : Nat) (seconds seconds' : String) :
    (l.execute? fuel seconds' arguments' read').map Report.outcome =
      (l.execute? fuel seconds arguments read).map Report.outcome := by
  by_cases hloads : ∃ settings image, l.Loads i read settings image
  · obtain ⟨settings, image, hl⟩ := hloads
    obtain ⟨settings', hl', hplain⟩ := h.loads hl
    calc
      (l.execute? fuel seconds' arguments' read').map Report.outcome =
          (plain settings' image).outcome? fuel := outcome_of_loads hi' hfilter' hl' fuel seconds'
      _ = (plain settings image).outcome? fuel := by rw [hplain]
      _ = (l.execute? fuel seconds arguments read).map Report.outcome :=
        (outcome_of_loads hi hfilter hl fuel seconds).symm
  · rw [outcome_of_not_loads hi hfilter, outcome_of_not_loads hi' hfilter']
    · intro settings image hl'
      obtain ⟨settings, hl, -⟩ := h.symm.loads hl'
      exact hloads ⟨settings, image, hl⟩
    · exact fun settings image hl ↦ hloads ⟨settings, image, hl⟩

/-- The outcome of a command whose log filter can be read. Settings that cannot be had are reported
whatever the program is; settings or a program that cannot be had give exit code one and no output.
Otherwise the command ends if the execution of its computer stops, and its output is what that
printed until then. The exit code is zero exactly for an execution that comes to a halt within the
budget. Commands that differ in nothing but diagnostics have the same outcome with the same fuel, so
that one ends if and only if the other does; and so it is when a diagnostic option is added to
arguments or removed, if libraries separate these options from the others. -/
theorem outcome_of_invocation (hi : l.readArguments arguments = .ok i)
    (hfilter : l.ReturnsOn i.logFilter) (read : π → Except String String) :
    (∀ e, l.fileSettings i read = .error e → ∀ fuel seconds,
      l.execute? fuel seconds arguments read =
        some { code := 1, messages := fatal e.message }) ∧
    ((∀ settings image, ¬ l.Loads i read settings image) → ∀ fuel seconds,
      (l.execute? fuel seconds arguments read).map Report.outcome = some (1, [])) ∧
    (∀ settings image, l.Loads i read settings image →
      (∀ fuel seconds report, l.execute? fuel seconds arguments read = some report →
        ∃ k < fuel, (plain settings image).StopsAfter k) ∧
      ∀ k, (plain settings image).StopsAfter k → ∀ fuel seconds,
        (l.execute? fuel seconds arguments read).map Report.output =
          if fuel ≤ k then none else some (items ((plain settings image).history k))) ∧
    (∀ fuel seconds report, l.execute? fuel seconds arguments read = some report →
      (report.code = 0 ∨ report.code = 1) ∧
        (report.code = 0 ↔ ∃ settings image, l.Loads i read settings image ∧
          ∃ n, (plain settings image).HaltsWithin n)) ∧
    (∀ arguments' i' read', l.readArguments arguments' = .ok i' → l.ReturnsOn i'.logFilter →
      l.Alike i read i' read' → ∀ fuel seconds seconds',
        (l.execute? fuel seconds' arguments' read').map Report.outcome =
          (l.execute? fuel seconds arguments read).map Report.outcome) ∧
    ∀ argument, l.SeparatesDiagnostics argument → ∀ before added after i',
      arguments = before ++ after → Diagnostic added →
        l.readArguments (before ++ (added.map argument ++ after)) = .ok i' →
          l.ReturnsOn i'.logFilter → ∀ fuel seconds seconds',
            (l.execute? fuel seconds' (before ++ (added.map argument ++ after)) read).map
                Report.outcome =
              (l.execute? fuel seconds arguments read).map Report.outcome := by
  refine ⟨?_, fun hnone ↦ outcome_of_not_loads hi hfilter hnone, ?_,
    fun _ _ _ ↦ code_of_execute? hi hfilter, ?_, ?_⟩
  · intro e he fuel seconds
    obtain ⟨filter, hfilter⟩ := exists_filter_of_returnsOn hfilter
    have hlaunch : l.launch filter i read = .error { code := 1, messages := fatal e.message } := by
      rw [launch, settingsOf_eq, he]
      rfl
    simp only [execute?, hi, hfilter, hlaunch]
  · intro settings image h
    refine ⟨fun _ _ _ ↦ exists_stopsAfter_of_execute? hi hfilter h, ?_⟩
    intro k hk fuel seconds
    have houtcome := congrArg (Option.map Prod.snd) (outcome_of_stopsAfter hi hfilter h hk fuel
      seconds)
    rw [Option.map_map] at houtcome
    refine houtcome.trans ?_
    split
    · rfl
    · rfl
  · intro arguments' i' read' hi' hfilter' halike fuel seconds seconds'
    exact halike.outcome_eq hi hfilter hi' hfilter' fuel seconds seconds'
  · rintro argument hseparates before added after i' rfl hadded hi' hfilter' fuel seconds seconds'
    have halike : l.Alike i read i' read := by
      constructor
      case settings =>
        have hfile := hseparates.settingsFile before added after i i' hadded hi hi'
        rw [fileSettings, fileSettings, hfile]
      case program => rw [hseparates.program before added after i i' hadded hi hi']
    exact halike.outcome_eq hi hfilter hi' hfilter' fuel seconds seconds'

end

/-- A program prints a number and halts, without and with a log and a trace. Of the log filters,
`warn` and `trace` are known. -/
theorem outcome_of_invocation_of_halt :
    let text := "10000010\n0\n00001000\n01000111\n0\n00000001"
    let read : String → Except String String :=
      fun path ↦ .ok (if path = "settings.json" then "[[true]]" else text)
    let silent : Journal.Filter := fun _ ↦ false
    let l := Libraries.ofTexts (fun _ ↦ { code := 2 }) (fun _ ↦ "")
      (fun text ↦ some (if text = "trace" then some fun _ ↦ true
        else if text = "warn" then some silent else none)) silent
    l.SeparatesDiagnostics id ∧ l.ReturnsOn "warn" ∧ l.ReturnsOn "trace" ∧
    (∃ settings image, l.Loads { program := "program.ls8" } read settings image ∧
      ∃ n, (plain settings image).HaltsWithin n) ∧
    (l.execute? 9 "0.0000" ["--log-level", "trace", "program.ls8"] read).map Report.outcome =
      some (0, [56]) ∧
    (l.execute? 9 "0.0000" ["-tc", "settings.json", "program.ls8"] read).map Report.outcome =
      some (0, [56]) := by
  intro text read silent l
  let i' : Invocation String :=
    { program := "program.ls8", settingsFile := some "settings.json", tracing := true }
  have hseparates : l.SeparatesDiagnostics id := separatesDiagnostics_ofTexts _ _ _ _
  have hwarn : l.ReturnsOn "warn" := ⟨_, rfl⟩
  have htrace : l.ReturnsOn "trace" := ⟨_, rfl⟩
  have hi : l.readArguments ["program.ls8"] = .ok { program := "program.ls8" } := by
    decide +kernel
  have hi' : l.readArguments ["-tc", "settings.json", "program.ls8"] = .ok i' := by decide +kernel
  have hlogged : l.readArguments ["--log-level", "trace", "program.ls8"] =
      .ok { program := "program.ls8", logFilter := "trace" } := by
    decide +kernel
  have houtcome : (l.execute? 9 "0.0000" ["program.ls8"] read).map Report.outcome =
      some (0, [56]) := by
    decide +kernel
  have halike : l.Alike { program := "program.ls8" } read i' read := by
    refine ⟨?_, rfl⟩
    decide +kernel
  obtain ⟨-, -, -, hcode, htraced, hadded⟩ := outcome_of_invocation hi hwarn read
  refine ⟨hseparates, hwarn, htrace, ?_, ?_, ?_⟩
  · obtain ⟨report, hreport, hzero⟩ := Option.map_eq_some_iff.1 houtcome
    exact (hcode 9 _ report hreport).2.1 (congrArg Prod.fst hzero)
  · rw [← houtcome]
    exact hadded id hseparates [] ["--log-level", "trace"] ["program.ls8"] _ rfl (.logFilter _)
      hlogged htrace 9 _ _
  · rw [← houtcome]
    exact htraced _ i' read hi' hwarn halike 9 _ _

end Libraries

end CommandLine

end OctetMachine
