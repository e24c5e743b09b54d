import OptimizedLookup.Encoding

/-! A tape of symbols with a cursor. Reading and writing go by the distance from the cursor; a cell
that was never written, or was written as unset, reads as none. -/
namespace OptimizedLookup

structure Tape where
  cells : Array (Option Symbol) := #[]
  cursor : Nat := 0
  deriving DecidableEq

namespace Tape

/-- Positions are 64-bit numbers: there are no cells from this one on. -/
def positionLimit : Nat := 0x10000000000000000

/-- The position `offset` places from the cursor, if there is one. Only a place ahead of the cursor
can lie past the last position. -/
def position? (tape : Tape) (offset : Int) : Option Nat :=
  let position := tape.cursor + offset
  if 0 ≤ position ∧ (offset ≤ 0 ∨ position < positionLimit) then some position.toNat else none

def cell (tape : Tape) (position : Nat) : Option Symbol := tape.cells.getD position none

def get (tape : Tape) (offset : Int) : Option Symbol := (tape.position? offset).bind tape.cell

/-- Writes the cell `offset` places from the cursor; where there is none, nothing happens. Cells
between the last one and a new one are unset. -/
def put (tape : Tape) (symbol : Option Symbol) (offset : Int) : Tape :=
  match tape.position? offset with
  | none => tape
  | some position =>
    if position < tape.cells.size then
      { tape with cells := tape.cells.setIfInBounds position symbol }
    else
      { tape with
        cells := (tape.cells ++ Array.replicate (position - tape.cells.size) none).push symbol }

def advance (tape : Tape) (count : Nat) : Tape := { tape with cursor := tape.cursor + count }

def retreat (tape : Tape) (count : Nat) : Tape := { tape with cursor := tape.cursor - count }

def push (tape : Tape) (symbol : Option Symbol) : Tape := (tape.put symbol 0).advance 1

def reset (tape : Tape) : Tape := { tape with cursor := 0 }

def symbols (tape : Tape) : List Symbol :=
  (tape.cells.toList.takeWhile Option.isSome).filterMap id

def ofSymbols (symbols : List Symbol) : Tape :=
  let written := symbols.foldl (fun (tape : Tape) symbol => tape.push (some symbol)) {}
  (written.push none).reset

theorem cell_put {tape : Tape} {offset : Int} {position : Nat}
    (inside : tape.position? offset = some position) (symbol : Option Symbol) (other : Nat) :
    (tape.put symbol offset).cell other = if other = position then symbol else tape.cell other := by
  simp only [put, inside, cell, Array.getD_eq_getD_getElem?]
  by_cases written : position < tape.cells.size
  · simp only [written, if_true, Array.getElem?_setIfInBounds]
    by_cases same : position = other
    · subst same
      simp
    · simp [same, Ne.symm same]
  · simp only [written, if_false, Array.getElem?_push, Array.getElem?_append,
      Array.getElem?_replicate, Array.size_append, Array.size_replicate]
    have reached : tape.cells.size + (position - tape.cells.size) = position := by omega
    rw [reached]
    by_cases same : other = position
    · simp [same]
    · by_cases old : other < tape.cells.size
      · simp [same, old]
      · simp only [same, old, if_false]
        rw [Array.getElem?_eq_none (Nat.le_of_not_lt old)]
        split <;> rfl

@[simp] theorem position?_zero (tape : Tape) : tape.position? 0 = some tape.cursor := by
  simp [position?]

theorem cell_put_zero (tape : Tape) (symbol : Option Symbol) (other : Nat) :
    (tape.put symbol 0).cell other = if other = tape.cursor then symbol else tape.cell other :=
  cell_put (position?_zero tape) symbol other

@[simp] theorem get_zero (tape : Tape) : tape.get 0 = tape.cell tape.cursor := by
  simp [get]

theorem get_advance (tape : Tape) : (tape.advance 1).get (-1) = tape.cell tape.cursor := by
  have behind : ((tape.cursor + 1 : Nat) : Int) + -1 = tape.cursor := by omega
  simp only [get, position?, advance, behind]
  simp [cell]

@[simp] theorem cell_advance (tape : Tape) (count position : Nat) :
    (tape.advance count).cell position = tape.cell position := rfl

@[simp] theorem cell_retreat (tape : Tape) (count position : Nat) :
    (tape.retreat count).cell position = tape.cell position := rfl

@[simp] theorem retreat_advance (tape : Tape) (count : Nat) :
    (tape.advance count).retreat count = tape := by
  simp [retreat, advance]

theorem put_of_position?_eq_none {tape : Tape} {offset : Int}
    (outside : tape.position? offset = none) (symbol : Option Symbol) :
    tape.put symbol offset = tape := by
  simp [put, outside]

@[simp] theorem cursor_put (tape : Tape) (symbol : Option Symbol) (offset : Int) :
    (tape.put symbol offset).cursor = tape.cursor := by
  unfold put
  split
  · rfl
  · split <;> rfl

end Tape

end OptimizedLookup
