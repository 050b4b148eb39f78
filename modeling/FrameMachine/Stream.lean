import FrameMachine.Fault

/-!
# Streams

The input is a sequence of bytes that is read line by line. The output answers each text that is
written to it: it takes the text, or it takes a part of it and fails. Its answers are given one by
one, and behind them by a rule: it takes bytes, possibly up to a limit, and every write is followed
by a flush, which may fail.
-/

set_option autoImplicit false

namespace FrameMachine

/-! ## Input -/

/-- The byte that ends a line. -/
def newline : UInt8 := 10

namespace Input

/-- The bytes up to the first end of a line, the end included, and the bytes after it. -/
def splitLine (bytes : List UInt8) : List UInt8 × List UInt8 :=
  let line := bytes.takeWhile (· != newline)
  match bytes.dropWhile (· != newline) with
  | [] => (line, [])
  | b :: rest => (line ++ [b], rest)

/-- The text that the bytes encode in UTF-8, if they do. -/
def decode? (bytes : List UInt8) : Option String := String.fromUTF8? ⟨bytes.toArray⟩

/-- The line without its end: a newline, or a carriage return and a newline. -/
def dropLineEnd (line : List Char) : List Char :=
  match line.reverse with
  | '\n' :: '\r' :: body => body.reverse
  | '\n' :: body => body.reverse
  | _ => line

/-- Reads a line. The bytes of the line are used up even if they are no text. -/
def readLine (input : List UInt8) : Except StreamFault String × List UInt8 :=
  let (line, rest) := splitLine input
  match decode? line with
  | some text => (.ok (String.ofList (dropLineEnd text.toList)), rest)
  | none => (.error .invalidText, rest)

end Input

/-! ## Output -/

/-- How the output answers a text. -/
inductive Answer where
  /-- It takes the whole text. -/
  | takes
  /-- It takes no more than a number of bytes from the beginning of the text, and fails. -/
  | fails (taken : Nat) (reason : String)
deriving DecidableEq

/-- The output and what it is able to take. -/
structure Output where
  /-- The bytes written so far. -/
  written : Array UInt8 := #[]
  /-- The number of bytes that the output takes in all, if there is a limit. -/
  limit : Option Nat := none
  /-- Every flush fails. -/
  flushFails : Bool := false
  /-- The answers to the next texts. The limit and the flushes count only when there
  are none left. -/
  answers : List Answer := []
deriving DecidableEq, Inhabited

namespace Output

/-- The part of the bytes that the output still takes. -/
def accepted (out : Output) (bytes : Array UInt8) : Array UInt8 :=
  match out.limit with
  | none => bytes
  | some limit => bytes.take (limit - out.written.size)

/-- Writes bytes and flushes. What fits is written even if not all does, and then there is no
flush. -/
def put (out : Output) (bytes : Array UInt8) : Except StreamFault Unit × Output :=
  let taken := out.accepted bytes
  let after := { out with written := out.written ++ taken }
  if taken.size < bytes.size then (.error .sinkFull, after)
  else if after.flushFails then (.error .flushFailed, after)
  else (.ok (), after)

/-- Writes a text, as the next answer says if there is one. -/
def write (out : Output) (text : String) : Except StreamFault Unit × Output :=
  let bytes := text.toUTF8.data
  match out.answers with
  | [] => out.put bytes
  | .takes :: rest => (.ok (), { out with written := out.written ++ bytes, answers := rest })
  | .fails taken reason :: rest =>
    (.error (.refused reason),
      { out with written := out.written ++ bytes.take taken, answers := rest })

end Output
end FrameMachine
