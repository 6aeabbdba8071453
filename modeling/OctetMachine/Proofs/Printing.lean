import OctetMachine.CommandLine.Arguments
import OctetMachine.Proofs.Architecture
import OctetMachine.Proofs.Placement
import OctetMachine.Proofs.Truncation

/-!
# What a program prints

A device that takes everything receives one item for each number or character that was printed and
nothing else, so the output is told by what was retired. Every item is whole UTF-8, and so is the
output, also of a run that fails. Traces and reports go to other places.
-/

namespace OctetMachine

namespace Retirement

/-- The bytes that an instruction printed: a number in decimal, or a character in UTF-8. -/
def item (r : Retirement) : List UInt8 :=
  let v := (r.before.operand r.before.fetch.a).toNat
  match r.op with
  | .prn => (Architecture.digits v).map UInt8.ofNat
  | .pra => (Architecture.encoded v).map UInt8.ofNat
  | _ => []

/-- The bytes that were printed. -/
def items (log : List Retirement) : List UInt8 := log.flatMap item

/-- All that was received from `before` to `after` are the items of a log, and they are UTF-8. -/
structure Prints (log : List Retirement) (before after : Array UInt8) : Prop where
  received : after.toList = before.toList ++ items log
  valid : (items log).toByteArray.IsValidUTF8
  valid_of_valid : (ByteArray.mk before).IsValidUTF8 → (ByteArray.mk after).IsValidUTF8

theorem items_append (log rest : List Retirement) :
    items (log ++ rest) = items log ++ items rest := List.flatMap_append

/-- An item is the text of its instruction. -/
theorem item_eq (r : Retirement) :
    r.item = (r.before.printed r.op).flatMap String.utf8EncodeChar := by
  have hbytes (bytes : List UInt8) : (bytes.map UInt8.toNat).map UInt8.ofNat = bytes := by
    rw [List.map_map]
    simp [Function.comp_def]
  obtain ⟨op, before⟩ := r
  cases op with
  | prn => rw [item, Architecture.digits_eq, hbytes, Machine.printed]
  | pra =>
    rw [item, Architecture.encoded_eq, hbytes, Machine.printed, List.flatMap_singleton]
  | _ => rfl

theorem toByteArray_items (log : List Retirement) :
    (items log).toByteArray = (log.flatMap fun r ↦ r.before.printed r.op).utf8Encode := by
  have hitem : item = fun r ↦ (r.before.printed r.op).flatMap String.utf8EncodeChar :=
    funext item_eq
  rw [List.utf8Encode, List.flatMap_assoc, items, hitem]

theorem isValidUTF8_items (log : List Retirement) : (items log).toByteArray.IsValidUTF8 := by
  rw [toByteArray_items]
  exact ByteArray.isValidUTF8_utf8Encode

theorem Prints.of_received {log : List Retirement} {before after : Array UInt8}
    (h : after.toList = before.toList ++ items log) : Prints log before after := by
  refine ⟨h, isValidUTF8_items log, ?_⟩
  intro hvalid
  have hafter : ByteArray.mk after = ByteArray.mk before ++ (items log).toByteArray := by
    apply ByteArray.ext
    apply Array.toList_inj.1
    rw [h, ByteArray.data_append, Array.toList_append, List.data_toByteArray]
  rw [hafter]
  exact hvalid.append (isValidUTF8_items log)

end Retirement

open Device (HasRoom)
open Retirement (Prints items)

namespace Computer

variable {δ : Type}

variable [Device δ]

/-- A step adds the item of what it retires, and nothing if it retires nothing. -/
theorem received_step {c : Computer δ} (h : c.outlet.Holds ⊤) :
    c.step.1.outlet.received.toList =
      c.outlet.received.toList ++ items c.retirement?.toList := by
  rcases c.step_cases with
    ⟨hhalted, hstep⟩ | ⟨op, c', hretires, hstep⟩ | ⟨fault, e, hrun, hfails, hstep⟩
  · rw [hstep, retirement?_of_halted hhalted]
    exact (List.append_nil _).symm
  · rw [hstep, hretires.retirement?, hretires.received, Option.toList_some, items,
      List.flatMap_singleton, Retirement.item_eq]
  · rw [hstep, hfails.retirement? hrun, hfails.outlet_eq (hfails.ne_output h)]
    exact (List.append_nil _).symm

theorem received_steps {c : Computer δ} (h : c.outlet.Holds ⊤) (n : Nat) :
    (c.steps n).outlet.received.toList =
      c.outlet.received.toList ++ items (c.history n) := by
  induction n with
  | zero => exact (List.append_nil _).symm
  | succ n ih =>
    rw [steps_succ, received_step (holds_top_steps h n), ih, history_succ,
      Retirement.items_append, List.append_assoc]

theorem prints_of_run? {c c' : Computer δ} (h : c.outlet.Holds ⊤) {fuel : Nat}
    {result : Except Fault Unit} (hrun : c.run? fuel = some (c', result)) :
    Prints (c.retirements fuel) c.outlet.received c'.outlet.received := by
  obtain ⟨k, -, hadvance, hhistory⟩ := c.exists_history_of_advance fuel
  rw [received_of_run? hrun, hadvance, hhistory]
  exact .of_received (received_steps h k)

end Computer

namespace CommandLine

theorem Libraries.outlet_of_launch {α π : Type} {l : Libraries α π} {filter : Journal.Filter}
    {i : Invocation π} {read : π → Except String String} {d : Computer Container}
    (h : l.launch filter i read = .ok d) : d.outlet = { device := {} } := by
  unfold launch at h
  split at h
  next => cases h
  next settings _ =>
    dsimp only at h
    split at h
    next c hload =>
      cases h
      exact (Computer.places_of_loadFile hload).outlet
    next => cases h

end CommandLine

namespace Computer

open CommandLine (Invocation Libraries)

variable {δ : Type} [Device δ]

/-- The output of a computer whose device takes everything, after any number of steps and after any
run, is what it was before with the items of the retired prints behind it. The output of a command
is that of its run, whatever is traced, logged or reported besides. -/
theorem prints_of_hasRoom (c : Computer δ) (h : HasRoom c.outlet.device ⊤) :
    (∀ n, Prints (c.history n) c.outlet.received (c.steps n).outlet.received) ∧
      (∀ fuel c' result, c.run? fuel = some (c', result) →
        Prints (c.retirements fuel) c.outlet.received c'.outlet.received) ∧
      ∀ (α π : Type) (l : Libraries α π) fuel seconds arguments read i filter d report,
        l.readArguments arguments = .ok i → l.filter? i.logFilter = some filter →
          l.launch filter i read = .ok d → l.execute? fuel seconds arguments read = some report →
            Prints (d.retirements fuel) #[] report.output.toArray := by
  have hfree : c.outlet.Holds ⊤ := Outlet.holds_top_iff.2 h
  refine ⟨?_, ?_, ?_⟩
  · exact fun n ↦ .of_received (received_steps hfree n)
  · exact fun fuel c' result hrun ↦ prints_of_run? hfree hrun
  · intro α π l fuel seconds arguments read i filter d report hi hfilter hlaunch hreport
    have houtlet : d.outlet = { device := {} } := Libraries.outlet_of_launch hlaunch
    simp only [Libraries.execute?, hi, hfilter, hlaunch] at hreport
    obtain ⟨⟨c', result⟩, hrun, rfl⟩ := Option.map_eq_some_iff.1 hreport
    have hprints := prints_of_run? (houtlet ▸ Container.holds_left {}) hrun
    rw [houtlet] at hprints
    exact hprints

/-- A traced program prints a number and a character of two bytes, and then fails. The log filter is
the one that is taken when none is asked for. -/
theorem prints_of_hasRoom_of_unknown_opcode :
    let text := "10000010\n0\n11001000\n01000111\n0\n01001000\n0\n11111111"
    let read : String → Except String String := fun _ ↦ .ok text
    let silent : Journal.Filter := fun _ ↦ false
    let l := Libraries.ofTexts (fun _ ↦ { code := 2 }) (fun _ ↦ "")
      (fun text ↦ some (if text = "warn" then some silent else none)) silent
    ∃ report, l.execute? 9 "0.0000" ["-ts", "program.ls8"] read = some report ∧
      report.code = 1 ∧
      report.output = [50, 48, 48, 195, 136] ∧
      report.output.toByteArray.IsValidUTF8 := by
  intro text read silent l
  let i : Invocation String := { program := "program.ls8", tracing := true, statistics := true }
  have hi : l.readArguments ["-ts", "program.ls8"] = .ok i := by decide +kernel
  have hfilter : l.filter? i.logFilter = some silent := rfl
  have hlaunched : (l.launch silent i read).map (fun d ↦ items (d.retirements 9)) =
      .ok [50, 48, 48, 195, 136] := by
    decide +kernel
  have hcode : (l.execute? 9 "0.0000" ["-ts", "program.ls8"] read).map (·.code) = some 1 := by
    decide +kernel
  obtain ⟨report, hreport, hcode⟩ := Option.map_eq_some_iff.1 hcode
  cases hlaunch : l.launch silent i read with
  | error report => simp [hlaunch, Except.map] at hlaunched
  | ok d =>
    rw [hlaunch] at hlaunched
    have hitems : items (d.retirements 9) = [50, 48, 48, 195, 136] := Except.ok.inj hlaunched
    have hfree : HasRoom d.outlet.device ⊤ := by
      rw [Libraries.outlet_of_launch hlaunch]
      exact Container.hasRoom_left {}
    have hprints := (prints_of_hasRoom d hfree).2.2 _ _ l 9 _ _ read i silent d report hi hfilter
      hlaunch hreport
    have houtput : report.output = items (d.retirements 9) := by simpa using hprints.received
    refine ⟨report, hreport, hcode, ?_, ?_⟩
    · rw [houtput, hitems]
    · rw [houtput]
      exact hprints.valid

end Computer

end OctetMachine
