import OctetMachine.Arithmetic
import OctetMachine.Binary64
import OctetMachine.Fault
import OctetMachine.Flags
import OctetMachine.Instruction
import OctetMachine.Machine
import OctetMachine.Machine.Cycle
import OctetMachine.Machine.Listing
import OctetMachine.Memory
import OctetMachine.Numeral
import OctetMachine.Opcode
import OctetMachine.Registers
import OctetMachine.Settings
import OctetMachine.Statistics
import OctetMachine.Statistics.Report
import OctetMachine.Output
import OctetMachine.Program
import OctetMachine.Computer
import OctetMachine.Computer.Execution
import OctetMachine.Computer.Cycle
import OctetMachine.JsonText.Number
import OctetMachine.JsonText.Token
import OctetMachine.Settings.Reader
import OctetMachine.CommandLine
import OctetMachine.CommandLine.Arguments
import OctetMachine.Directory
import OctetMachine.Main
import OctetMachine.Proofs.Successor
import OctetMachine.Proofs.Step
import OctetMachine.Proofs.Architecture
import OctetMachine.Proofs.Course
import OctetMachine.Proofs.Atomicity
import OctetMachine.Proofs.Flushing
import OctetMachine.Proofs.Budget
import OctetMachine.Proofs.History
import OctetMachine.Proofs.Calls
import OctetMachine.Proofs.Spelling
import OctetMachine.Proofs.Placement
import OctetMachine.Proofs.Account
import OctetMachine.Proofs.Comparison
import OctetMachine.Proofs.Unread
import OctetMachine.Proofs.Room
import OctetMachine.Proofs.Truncation
import OctetMachine.Proofs.Resumption
import OctetMachine.Proofs.Printing
import OctetMachine.Proofs.Stores
import OctetMachine.Proofs.Diagnosis
import OctetMachine.Proofs.Halting
import OctetMachine.Proofs.Stack
import OctetMachine.Proofs.Options
import OctetMachine.Proofs.Outcome
import OctetMachine.Proofs.Saving
import OctetMachine.Proofs.Concatenation
import OctetMachine.Proofs.Layout
import OctetMachine.Proofs.Loading
import OctetMachine.Proofs.Listing
import OctetMachine.Proofs.Tracing
import OctetMachine.Proofs.Effects
import OctetMachine.Proofs.Checks
import OctetMachine.Proofs.Document
import OctetMachine.Proofs.Lexing
import OctetMachine.Proofs.Reading
import OctetMachine.Proofs.Schema
