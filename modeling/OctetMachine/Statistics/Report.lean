import OctetMachine.Binary64
import OctetMachine.Numeral
import OctetMachine.Statistics

/-!
# The statistics report

The report lists the counters with the share of each kind. A share is a percentage computed in
binary floating point; its exact value is then rounded to two places, a half to the even neighbour.
-/

namespace OctetMachine.Statistics

/-- The percentage `count` has of `total`; no total counts as one. -/
def share (count total : UInt64) : Rat :=
  Binary64.mul (Binary64.div (Binary64.ofNat count.toNat) (Binary64.ofNat (max total.toNat 1))) 100

/-- Two places behind a point. -/
def twoPlaces (x : Rat) : String :=
  let hundredths := Binary64.nearestNat (x.num.toNat * 100) x.den
  Numeral.decimal (hundredths / 100) ++ "." ++
    String.ofList (Numeral.fixedDigits 10 2 (hundredths % 100))

/-- A name in a column of the given width. -/
def column (width : Nat) (name : String) : String :=
  name ++ String.ofList (List.replicate (width - name.length) ' ')

def kindLine (s : Statistics) (name : String) (kind : OpcodeKind) : String :=
  "  " ++ column 22 name ++ " " ++ Numeral.decimal (s.count kind).toNat ++ " (" ++
    twoPlaces (share (s.count kind) s.retired) ++ "%)\n"

def doubleRule : String := String.ofList (List.replicate 58 '=') ++ "\n"

def rule : String := String.ofList (List.replicate 58 '-') ++ "\n"

/-- The report of a run that took the given time, in seconds. -/
def report (s : Statistics) (seconds : String) : String :=
  doubleRule ++ "LS-8 EXECUTION STATISTICS\n" ++ doubleRule ++
    "host_seconds             " ++ seconds ++ " s\n" ++
    "sim_insts                " ++ Numeral.decimal s.retired.toNat ++ "\n" ++
    rule ++ "INSTRUCTION MIX\n" ++
    s.kindLine "alu" .alu ++ s.kindLine "load" .load ++ s.kindLine "stack" .stack ++
    s.kindLine "branch" .branch ++ s.kindLine "io" .io ++ s.kindLine "other" .other ++
    rule ++ "CONTROL FLOW\n" ++
    "  branches.taken         " ++ Numeral.decimal s.taken.toNat ++ "\n" ++
    "  branches.not_taken     " ++ Numeral.decimal s.notTaken.toNat ++ "\n"

end OctetMachine.Statistics
