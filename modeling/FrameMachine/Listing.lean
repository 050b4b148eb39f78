import FrameMachine.Code

/-!
# Listings

The code of a program as text. Each function has a line with its name and its number of parameters,
and then a line for each instruction with its index, a label if some jump of the function goes
there, and the instruction. Labels are numbered in the order of the places that they name. A blank
line stands between two functions.
-/

set_option autoImplicit false

namespace FrameMachine

/-- The text of a number. -/
def natText (n : Nat) : String := String.ofList (Text.natDigits n)

/-- The text with blanks in front of it up to the given width. -/
def padLeft (width : Nat) (s : String) : String :=
  String.ofList (List.replicate (width - s.length) ' ') ++ s

namespace Template

/-- Inserts a number into an ascending list, unless it is there already. -/
def insertTarget (n : Nat) : List Nat → List Nat
  | [] => [n]
  | m :: ms =>
    if n < m then n :: m :: ms
    else if n = m then m :: ms
    else m :: insertTarget n ms

/-- The places to which the function jumps, in ascending order and each once. -/
def targets (t : Template) : List Nat :=
  (t.code.toList.filterMap Instr.target?).foldr insertTarget []

/-- The label of a place, given the places that have labels. -/
def label (targets : List Nat) (place : Nat) : String :=
  match targets.idxOf? place with
  | some n => "L" ++ natText n ++ ":"
  | none => ""

/-- How a jump names its target: by its label, or by itself if it has none. -/
def targetName (targets : List Nat) (target : Nat) : String :=
  match targets.idxOf? target with
  | some n => "L" ++ natText n
  | none => "@" ++ natText target

/-- What stands behind an instruction: where it jumps to, if it jumps. -/
def goal (targets : List Nat) (i : Instr) : String :=
  match i.target? with
  | some target => " (to " ++ targetName targets target ++ ")"
  | none => ""

/-- What stands before an instruction: its place and its label. -/
def margin (targets : List Nat) (place : Nat) : String :=
  "    " ++ padLeft 4 (natText place) ++ " " ++ padLeft 4 (label targets place) ++ "  "

/-- The line of an instruction. -/
def line (targets : List Nat) (place : Nat) (i : Instr) : String :=
  margin targets place ++ i.text ++ goal targets i ++ "\n"

/-- The line that opens the listing of a function. -/
def heading (t : Template) : String :=
  "frame " ++ t.name ++ " (arity " ++ natText t.arity ++ ")\n"

/-- The listing of a function. -/
def listing (t : Template) : String :=
  let targets := t.targets
  t.heading ++ String.join (t.code.toList.zipIdx.map fun (i, place) => line targets place i)

end Template

/-- The listing of all registered functions. -/
def Code.listing (code : Code) : String :=
  String.intercalate "\n" (code.templates.toList.map Template.listing)

end FrameMachine
