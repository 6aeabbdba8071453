import OctetMachine.JsonText.Token
import OctetMachine.Settings

/-!
# Settings files

Settings are written in JSON, as an object whose one member `general` is an object of three members,
each of them optional. Either object may be written as an array of the values in their order.
Members that are unknown or repeated are refused as soon as their key is read, values as soon as
they are read, and the first problem of the text decides.
-/

namespace OctetMachine.Settings

open JsonText

/-- A member of the inner object. -/
inductive Field where
  | tracing
  | stackPointer
  | budget
  deriving DecidableEq

def Field.key : Field → String
  | .tracing => "trace_instructions"
  | .stackPointer => "initial_sp"
  | .budget => "max_instructions"

/-- The fields in the order in which an array gives them. -/
def Field.all : List Field := [.tracing, .stackPointer, .budget]

def Field.ofKey? (key : List Char) : Option Field := Field.all.find? fun f ↦ f.key.toList == key

/-- The key of the inner object. -/
def generalKey : String := "general"

/-- Settings of which some fields have been read. -/
structure Draft where
  settings : Settings := {}
  seen : List Field := []

/-! ## Tokens that do not fit -/

/-- Why a value does not fit that starts with the given token: brackets and whole values open or are
a value of another type. -/
def misfit : List Token → Problem
  | [] => .truncated
  | .broken _ p :: _ => p
  | .mark '[' :: _ => .unsuitable
  | .mark '\x7b' :: _ => .unsuitable
  | .mark _ :: _ => .malformed
  | _ :: _ => .unsuitable

/-- Why a mark that is needed is missing. -/
def missing : List Token → Problem
  | [] => .truncated
  | _ :: _ => .malformed

/-- Takes the mark that has to come next. -/
def expect (c : Char) : List Token → Except Problem (List Token)
  | .mark d :: rest => if d = c then .ok rest else .error .malformed
  | ts => .error (missing ts)

/-- Reads the key of a member. -/
def readKey : List Token → Except Problem (List Char × List Token)
  | .string key :: rest => .ok (key, rest)
  | .broken true p :: _ => .error p
  | ts => .error (missing ts)

/-! ## Values -/

def readFlag : List Token → Except Problem (Bool × List Token)
  | .word .true :: rest => .ok (true, rest)
  | .word .false :: rest => .ok (false, rest)
  | ts => .error (misfit ts)

/-- Reads a natural number below a bound, or none. -/
def readNatural (bound : Nat) : List Token → Except Problem (Option Nat × List Token)
  | .word .null :: rest => .ok (none, rest)
  | .number x :: rest =>
    match x.natural? with
    | none => .error .unsuitable
    | some n => if n < bound then .ok (some n, rest) else .error .unsuitable
  | ts => .error (misfit ts)

/-- Reads the value of a field. -/
def readValue (d : Draft) (f : Field) (ts : List Token) : Except Problem (Draft × List Token) := do
  let seen := f :: d.seen
  match f with
  | .tracing =>
    let (tracing, rest) ← readFlag ts
    return ({ settings := { d.settings with tracing }, seen }, rest)
  | .stackPointer =>
    let (n, rest) ← readNatural UInt8.size ts
    return ({ settings := { d.settings with stackPointer := n.map UInt8.ofNat }, seen }, rest)
  | .budget =>
    let (n, rest) ← readNatural UInt64.size ts
    return ({ settings := { d.settings with budget := n.map UInt64.ofNat }, seen }, rest)

/-! ## The inner object -/

/-- Reads a member; its key has to be known and new. -/
def readMember (d : Draft) (ts : List Token) : Except Problem (Draft × List Token) := do
  let (key, ts) ← readKey ts
  match Field.ofKey? key with
  | none => .error .unsuitable
  | some f =>
    if d.seen.contains f then .error .unsuitable
    else
      let ts ← expect ':' ts
      readValue d f ts

theorem length_readKey {ts rest : List Token} {key : List Char} (h : readKey ts = .ok (key, rest)) :
    rest.length < ts.length := by
  unfold readKey at h
  split at h
  · obtain ⟨-, rfl⟩ := by simpa using h
    simp
  · simp at h
  · simp at h

theorem length_expect {c : Char} {ts rest : List Token} (h : expect c ts = .ok rest) :
    rest.length < ts.length := by
  unfold expect at h
  split at h
  · split at h
    · obtain rfl := by simpa using h
      simp
    · simp at h
  · simp at h

theorem length_readFlag {ts rest : List Token} {b : Bool} (h : readFlag ts = .ok (b, rest)) :
    rest.length < ts.length := by
  unfold readFlag at h
  split at h
  · obtain ⟨-, rfl⟩ := by simpa using h
    simp
  · obtain ⟨-, rfl⟩ := by simpa using h
    simp
  · simp at h

theorem length_readNatural {bound : Nat} {ts rest : List Token} {n : Option Nat}
    (h : readNatural bound ts = .ok (n, rest)) : rest.length < ts.length := by
  unfold readNatural at h
  split at h
  · obtain ⟨-, rfl⟩ := by simpa using h
    simp
  · split at h
    · simp at h
    · split at h
      · obtain ⟨-, rfl⟩ := by simpa using h
        simp
      · simp at h
  · simp at h

theorem length_readValue {d e : Draft} {f : Field} {ts rest : List Token}
    (h : readValue d f ts = .ok (e, rest)) : rest.length < ts.length := by
  cases f with
  | tracing =>
    obtain ⟨⟨b, after⟩, hv, h⟩ := exists_ok_of_bind h
    cases h
    exact length_readFlag hv
  | stackPointer =>
    obtain ⟨⟨n, after⟩, hv, h⟩ := exists_ok_of_bind h
    cases h
    exact length_readNatural hv
  | budget =>
    obtain ⟨⟨n, after⟩, hv, h⟩ := exists_ok_of_bind h
    cases h
    exact length_readNatural hv

theorem length_readMember {d e : Draft} {ts rest : List Token}
    (h : readMember d ts = .ok (e, rest)) : rest.length < ts.length := by
  obtain ⟨⟨key, afterKey⟩, hk, h⟩ := exists_ok_of_bind h
  have hkey := length_readKey hk
  dsimp only at h
  split at h
  · cases h
  · split at h
    · cases h
    · obtain ⟨afterColon, hc, h⟩ := exists_ok_of_bind h
      have hcolon := length_expect hc
      have hvalue := length_readValue h
      omega

/-- Reads what follows a member of the inner object. -/
def readMembers (d : Draft) (ts : List Token) : Except Problem (Draft × List Token) :=
  match ts with
  | .mark ',' :: rest =>
    match h : readMember d rest with
    | .error p => .error p
    | .ok (d, after) =>
      have := length_readMember h
      readMembers d after
  | ts => (expect '\x7d' ts).map fun rest ↦ (d, rest)
termination_by ts.length

/-- Reads the inner object behind its opening bracket. -/
def readObject : List Token → Except Problem (Draft × List Token)
  | .mark '\x7d' :: rest => .ok ({}, rest)
  | [] => .error .truncated
  | ts => do
    let (d, rest) ← readMember {} ts
    readMembers d rest

/-- Reads the values of an array for the given fields; the last of them may be missing. -/
def readElements (d : Draft) (first : Bool) :
    List Field → List Token → Except Problem (Draft × List Token)
  | _, .mark ']' :: rest => .ok (d, rest)
  | [], ts => .error (missing ts)
  | f :: fields, ts => do
    let ts ← if first then .ok ts else expect ',' ts
    let (d, rest) ← readValue d f ts
    readElements d false fields rest

def readGeneral : List Token → Except Problem (Draft × List Token)
  | .mark '\x7b' :: rest => readObject rest
  | .mark '[' :: rest => readElements {} true Field.all rest
  | ts => .error (misfit ts)

/-! ## The outer object -/

/-- Reads what follows the one member. Any other key is unknown or repeated. -/
def closeRoot : List Token → Except Problem (List Token)
  | .mark ',' :: rest =>
    match readKey rest with
    | .error p => .error p
    | .ok _ => .error .unsuitable
  | ts => expect '\x7d' ts

/-- Reads the outer object behind its opening bracket. -/
def readRootObject : List Token → Except Problem (Draft × List Token)
  | .mark '\x7d' :: rest => .ok ({}, rest)
  | ts => do
    let (key, rest) ← readKey ts
    if key = generalKey.toList then
      let rest ← expect ':' rest
      let (d, rest) ← readGeneral rest
      let rest ← closeRoot rest
      return (d, rest)
    else .error .unsuitable

/-- Reads the outer array behind its opening bracket. -/
def readRootArray : List Token → Except Problem (Draft × List Token)
  | .mark ']' :: rest => .ok ({}, rest)
  | ts => do
    let (d, rest) ← readGeneral ts
    let rest ← expect ']' rest
    return (d, rest)

def readRoot : List Token → Except Problem (Draft × List Token)
  | .mark '\x7b' :: rest => readRootObject rest
  | .mark '[' :: rest => readRootArray rest
  | ts => .error (misfit ts)

/-- Reads settings from the tokens of a whole text. -/
def ofTokens (ts : List Token) : Except Problem Settings := do
  match ← readRoot ts with
  | (d, []) => .ok d.settings
  | (_, _ :: _) => .error .malformed

/-- Reads the text of a settings file. -/
def ofText (text : String) : Except Problem Settings := ofTokens (tokens text.toList)

end OctetMachine.Settings
