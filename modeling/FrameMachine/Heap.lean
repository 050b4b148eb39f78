import FrameMachine.Fault

/-!
# The heap

Objects are numbered in the order in which they are made, and a number is never given out twice. An
object that has been given up leaves its place empty.
-/

set_option autoImplicit false

namespace FrameMachine

/-- The fields of an object, each with its contents. No name occurs twice. -/
abbrev Fields := List (String × Value)

namespace Fields

/-- Fields of the given names that are all nil. A repeated name counts once. -/
def blank (names : List String) : Fields := names.eraseDups.map fun name => (name, Value.nil)

/-- The contents of a field. -/
def get? (fields : Fields) (name : String) : Option Value := fields.lookup name

/-- The fields with new contents in one of them, if it is there. -/
def set? (fields : Fields) (name : String) (value : Value) : Option Fields :=
  if (fields.lookup name).isSome then
    some (fields.map fun (field, old) => if field = name then (field, value) else (field, old))
  else none

end Fields

/-- All objects ever made, by number. -/
structure Heap where
  /-- The fields of each object, or nothing where the object has been given up. -/
  cells : Array (Option Fields) := #[]
deriving DecidableEq, Inhabited

namespace Heap

/-- The heap without objects. -/
def empty : Heap := {}

/-- The number of objects ever made. -/
def allocated (h : Heap) : Nat := h.cells.size

/-- The number of objects that are still there. -/
def live (h : Heap) : Nat := h.cells.toList.countP Option.isSome

/-- The fields of an object. -/
def object? (h : Heap) (id : Nat) : Option Fields := (h.cells[id]?).join

/-- Whether the object is there. -/
def contains (h : Heap) (id : Nat) : Bool := (h.object? id).isSome

/-- Makes an object and gives its number. -/
def alloc (h : Heap) (fields : List String) : Nat × Heap :=
  (h.cells.size, ⟨h.cells.push (some (Fields.blank fields))⟩)

/-- Gives up an object. If it is not there, the heap stays as it is. -/
def free (h : Heap) (id : Nat) : Except Fault Unit × Heap :=
  match h.object? id with
  | some _ => (.ok (), ⟨h.cells.setIfInBounds id none⟩)
  | none => (.error (.missingObject id), h)

/-- The contents of a field of an object. -/
def get (h : Heap) (id : Nat) (field : String) : Except Fault Value :=
  match h.object? id with
  | none => .error (.missingObject id)
  | some fields =>
    match fields.get? field with
    | some value => .ok value
    | none => .error (.missingField id field)

/-- Puts a value into a field of an object. If there is no such field, the heap stays as it is. -/
def set (h : Heap) (id : Nat) (field : String) (value : Value) : Except Fault Unit × Heap :=
  match h.object? id with
  | none => (.error (.missingObject id), h)
  | some fields =>
    match fields.set? field value with
    | some fields => (.ok (), ⟨h.cells.setIfInBounds id (some fields)⟩)
    | none => (.error (.missingField id field), h)

end Heap
end FrameMachine
