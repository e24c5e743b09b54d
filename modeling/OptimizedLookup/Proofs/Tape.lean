import OptimizedLookup.Tape

/-! A tape without an end, with a cell at every position from the first one on, all of them there
before anything is written. A tape that grows as it is written cannot be told from it: whatever is
done to the two, both answer the same and their cursors stand at the same position. -/
namespace OptimizedLookup

namespace Tape

theorem cell_eq_getElem? (tape : Tape) (position : Nat) :
    tape.cell position = (tape.cells.toList[position]?).join := by
  rw [cell, Array.getD_eq_getD_getElem?, Array.getElem?_toList]
  cases tape.cells[position]? <;> rfl

theorem takeWhile_isSome_congr {cells written : List (Option Symbol)}
    (agrees : ∀ position < written.length, (cells[position]?).join = (written[position]?).join)
    (ends : (cells[written.length]?).join = none) :
    cells.takeWhile Option.isSome = written.takeWhile Option.isSome := by
  induction written generalizing cells with
  | nil =>
    cases cells with
    | nil => rfl
    | cons cell cells =>
      have unset : cell = none := ends
      simp [unset]
  | cons cell written ih =>
    have first : (cells[0]?).join = cell := agrees 0 (Nat.succ_pos _)
    cases cells with
    | nil =>
      have unset : cell = none := first.symm
      simp [unset]
    | cons other cells =>
      obtain rfl : other = cell := first
      have rest : cells.takeWhile Option.isSome = written.takeWhile Option.isSome :=
        ih (fun position lt => agrees (position + 1) (Nat.succ_lt_succ lt)) ends
      rw [List.takeWhile_cons, List.takeWhile_cons, rest]

theorem symbols_of_cells {tape : Tape} {written : List (Option Symbol)}
    (agrees : ∀ position < written.length, tape.cell position = (written[position]?).join)
    (ends : tape.cell written.length = none) :
    tape.symbols = (written.takeWhile Option.isSome).reduceOption := by
  simp only [cell_eq_getElem?] at agrees ends
  rw [symbols, takeWhile_isSome_congr agrees ends]
  rfl

structure Wrote (tape : Tape) (symbols : List Symbol) : Prop where
  cursor : tape.cursor = symbols.length
  cell : ∀ position, tape.cell position = symbols[position]?

theorem Wrote.push {tape : Tape} {symbols : List Symbol} (wrote : tape.Wrote symbols)
    (symbol : Symbol) : (tape.push (some symbol)).Wrote (symbols ++ [symbol]) where
  cursor := by simp [Tape.push, advance, wrote.cursor]
  cell position := by
    rw [Tape.push, cell_advance, cell_put_zero, wrote.cursor, wrote.cell, List.getElem?_append]
    by_cases last : position = symbols.length
    · simp [last]
    · by_cases before : position < symbols.length
      · simp [last, before]
      · have past : [symbol][position - symbols.length]? = none :=
          List.getElem?_eq_none (by rw [List.length_singleton]; omega)
        simp only [last, before, if_false, past]
        exact List.getElem?_eq_none (Nat.le_of_not_lt before)

theorem Wrote.foldl {tape : Tape} {symbols : List Symbol} (wrote : tape.Wrote symbols)
    (more : List Symbol) :
    (more.foldl (fun (tape : Tape) symbol => tape.push (some symbol)) tape).Wrote
      (symbols ++ more) := by
  induction more generalizing tape symbols with
  | nil => simpa using wrote
  | cons symbol more ih =>
    rw [List.foldl_cons, List.append_cons]
    exact ih (wrote.push symbol)

@[simp] theorem cursor_ofSymbols (symbols : List Symbol) : (ofSymbols symbols).cursor = 0 := rfl

theorem cell_ofSymbols (symbols : List Symbol) (position : Nat) :
    (ofSymbols symbols).cell position = symbols[position]? := by
  have blank : ({} : Tape).Wrote [] := ⟨rfl, fun _ => rfl⟩
  have wrote := blank.foldl symbols
  rw [List.nil_append] at wrote
  change (Tape.put _ none 0).cell position = _
  rw [cell_put_zero, wrote.cursor, wrote.cell]
  by_cases last : position = symbols.length
  · simp [last]
  · rw [if_neg last]

inductive Move where
  | get (offset : Int)
  | put (symbol : Option Symbol) (offset : Int)
  | push (symbol : Option Symbol)
  | advance (count : Nat)
  | retreat (count : Nat)
  | reset
  | symbols
  deriving DecidableEq

inductive Answer where
  | done
  | cell (symbol : Option Symbol)
  | list (symbols : List Symbol)
  deriving DecidableEq

def answer (tape : Tape) : Move → Answer
  | .get offset => .cell (tape.get offset)
  | .symbols => .list tape.symbols
  | _ => .done

def after (tape : Tape) : Move → Tape
  | .put symbol offset => tape.put symbol offset
  | .push symbol => tape.push symbol
  | .advance count => tape.advance count
  | .retreat count => tape.retreat count
  | .reset => tape.reset
  | .get _ | .symbols => tape

def run (tape : Tape) (moves : List Move) : Tape := moves.foldl after tape

def trace : Tape → List Move → List (Answer × Nat)
  | _, [] => []
  | tape, move :: moves =>
    (tape.answer move, (tape.after move).cursor) :: (tape.after move).trace moves

end Tape

structure EndlessTape where
  cell : Nat → Option Symbol
  cursor : Nat

namespace EndlessTape

open Tape (Move Answer)

def blank : EndlessTape := ⟨fun _ => none, 0⟩

def position? (tape : EndlessTape) (offset : Int) : Option Nat :=
  if 0 ≤ tape.cursor + offset then some (tape.cursor + offset).toNat else none

def get (tape : EndlessTape) (offset : Int) : Option Symbol :=
  (tape.position? offset).bind tape.cell

def put (tape : EndlessTape) (symbol : Option Symbol) (offset : Int) : EndlessTape :=
  match tape.position? offset with
  | none => tape
  | some position =>
    { tape with cell := fun other => if other = position then symbol else tape.cell other }

def advance (tape : EndlessTape) (count : Nat) : EndlessTape :=
  { tape with cursor := tape.cursor + count }

def retreat (tape : EndlessTape) (count : Nat) : EndlessTape :=
  { tape with cursor := if count ≤ tape.cursor then tape.cursor - count else 0 }

def Lists (tape : EndlessTape) (symbols : List Symbol) : Prop :=
  ∀ position ≤ symbols.length, tape.cell position = symbols[position]?

/-- What a move is answered on the tape. It cannot be computed, since the symbols may go on without
an end. -/
inductive Answers (tape : EndlessTape) : Move → Answer → Prop
  | get (offset : Int) : Answers tape (.get offset) (.cell (tape.get offset))
  | put (symbol : Option Symbol) (offset : Int) : Answers tape (.put symbol offset) .done
  | push (symbol : Option Symbol) : Answers tape (.push symbol) .done
  | advance (count : Nat) : Answers tape (.advance count) .done
  | retreat (count : Nat) : Answers tape (.retreat count) .done
  | reset : Answers tape .reset .done
  | symbols {symbols : List Symbol} (lists : tape.Lists symbols) :
      Answers tape .symbols (.list symbols)

def after (tape : EndlessTape) : Move → EndlessTape
  | .put symbol offset => tape.put symbol offset
  | .push symbol => (tape.put symbol 0).advance 1
  | .advance count => tape.advance count
  | .retreat count => tape.retreat count
  | .reset => { tape with cursor := 0 }
  | .get _ | .symbols => tape

inductive Traces : EndlessTape → List Move → List (Answer × Nat) → Prop
  | nil (tape : EndlessTape) : Traces tape [] []
  | cons {tape : EndlessTape} {move : Move} {answer : Answer} {moves : List Move}
      {trace : List (Answer × Nat)} (answers : tape.Answers move answer)
      (rest : (tape.after move).Traces moves trace) :
      Traces tape (move :: moves) ((answer, (tape.after move).cursor) :: trace)

def Stores (tape : EndlessTape) : Move → Prop
  | .put _ offset => tape.cursor + offset < Tape.positionLimit
  | _ => True

/-- All through the moves the cursor stands at a position of 64 bits, and so does every write. -/
def Fits : EndlessTape → List Move → Prop
  | tape, [] => tape.cursor < Tape.positionLimit
  | tape, move :: moves =>
    tape.cursor < Tape.positionLimit ∧ tape.Stores move ∧ (tape.after move).Fits moves

instance (tape : EndlessTape) : (move : Move) → Decidable (tape.Stores move)
  | .put _ _ => inferInstanceAs (Decidable (_ < _))
  | .get _ | .push _ | .advance _ | .retreat _ | .reset | .symbols =>
    inferInstanceAs (Decidable True)

instance decidableFits : (tape : EndlessTape) → (moves : List Move) → Decidable (tape.Fits moves)
  | _, [] => inferInstanceAs (Decidable (_ < _))
  | tape, move :: moves =>
    have := decidableFits (tape.after move) moves
    inferInstanceAs (Decidable (_ ∧ _ ∧ _))

variable {tape : EndlessTape}

theorem Lists.unique {symbols other : List Symbol} (lists : tape.Lists symbols)
    (listsOther : tape.Lists other) : symbols = other := by
  have noLonger {short long : List Symbol} (listsShort : tape.Lists short)
      (listsLong : tape.Lists long) : long.length ≤ short.length := by
    apply Nat.le_of_not_lt
    intro longer
    have unset := listsShort short.length (Nat.le_refl _)
    rw [listsLong _ (Nat.le_of_lt longer), List.getElem?_eq_none (Nat.le_refl _),
      List.getElem?_eq_none_iff] at unset
    exact Nat.not_le_of_lt longer unset
  apply List.ext_getElem?
  intro position
  by_cases within : position ≤ symbols.length
  · rw [← lists position within,
      ← listsOther position (Nat.le_trans within (noLonger listsOther lists))]
  · have far := noLonger lists listsOther
    rw [List.getElem?_eq_none (by omega), List.getElem?_eq_none (by omega)]

end EndlessTape

namespace Tape

variable {tape : Tape} {endless : EndlessTape}

/-- The cells say what the endless tape has at their positions, and nothing is written on that one
where no position can be stored. -/
structure Represents (tape : Tape) (endless : EndlessTape) : Prop where
  cell : ∀ position, tape.cell position = endless.cell position
  cursor : tape.cursor = endless.cursor
  beyond : ∀ position, positionLimit ≤ position → endless.cell position = none

theorem represents_blank : ({} : Tape).Represents .blank :=
  ⟨fun _ => rfl, rfl, fun _ _ => rfl⟩

theorem cell_eq_getElem?_symbols (tape : Tape) {position : Nat}
    (within : position ≤ tape.symbols.length) :
    tape.cell position = tape.symbols[position]? := by
  rw [cell_eq_getElem?]
  unfold symbols at within ⊢
  generalize tape.cells.toList = cells at within ⊢
  induction cells generalizing position with
  | nil => simp
  | cons cell cells ih =>
    cases cell with
    | none =>
      have first : position = 0 := by simpa using within
      simp [first]
    | some symbol =>
      cases position with
      | zero => simp
      | succ position => simpa using ih (by simpa using within)

namespace Represents

theorem get (represents : tape.Represents endless) (offset : Int) :
    tape.get offset = endless.get offset := by
  simp only [Tape.get, EndlessTape.get, position?, EndlessTape.position?, represents.cursor]
  by_cases inside : 0 ≤ (endless.cursor : Int) + offset
  · by_cases near : offset ≤ 0 ∨ (endless.cursor : Int) + offset < positionLimit
    · simp [inside, near, represents.cell]
    · -- the cell is there, but nothing was ever written to it
      have far : positionLimit ≤ ((endless.cursor : Int) + offset).toNat := by omega
      simp [inside, near, represents.beyond _ far]
  · simp [inside]

theorem lists_symbols (represents : tape.Represents endless) : endless.Lists tape.symbols :=
  fun position within =>
    (represents.cell position).symm.trans (tape.cell_eq_getElem?_symbols within)

theorem put (represents : tape.Represents endless) {offset : Int}
    (stored : (endless.cursor : Int) + offset < positionLimit) (symbol : Option Symbol) :
    (tape.put symbol offset).Represents (endless.put symbol offset) := by
  unfold EndlessTape.put EndlessTape.position?
  by_cases inside : 0 ≤ (endless.cursor : Int) + offset
  · have place : tape.position? offset = some ((endless.cursor : Int) + offset).toNat := by
      simp [position?, represents.cursor, inside, stored]
    rw [if_pos inside]
    refine ⟨fun other => ?_, ?_, fun other far => ?_⟩
    · rw [cell_put place, represents.cell]
    · rw [cursor_put, represents.cursor]
    · have apart : other ≠ ((endless.cursor : Int) + offset).toNat := by omega
      exact (if_neg apart).trans (represents.beyond other far)
  · have outside : tape.position? offset = none := by
      simp [position?, represents.cursor, inside]
    rw [if_neg inside, put_of_position?_eq_none outside]
    exact represents

theorem advance (represents : tape.Represents endless) (count : Nat) :
    (tape.advance count).Represents (endless.advance count) where
  cell := represents.cell
  cursor := congrArg (· + count) represents.cursor
  beyond := represents.beyond

theorem retreat (represents : tape.Represents endless) (count : Nat) :
    (tape.retreat count).Represents (endless.retreat count) where
  cell := represents.cell
  cursor := by
    simp only [Tape.retreat, EndlessTape.retreat, represents.cursor]
    split <;> omega
  beyond := represents.beyond

theorem after (represents : tape.Represents endless) {move : Move}
    (within : endless.cursor < positionLimit) (stores : endless.Stores move) :
    (tape.after move).Represents (endless.after move) := by
  cases move with
  | get offset => exact represents
  | put symbol offset => exact represents.put stores symbol
  | push symbol =>
    have stored : (endless.cursor : Int) + 0 < positionLimit := by omega
    exact (represents.put stored symbol).advance 1
  | advance count => exact represents.advance count
  | retreat count => exact represents.retreat count
  | reset => exact ⟨represents.cell, rfl, represents.beyond⟩
  | symbols => exact represents

theorem answers_iff (represents : tape.Represents endless) {move : Move} {answer : Answer} :
    endless.Answers move answer ↔ answer = tape.answer move := by
  constructor
  · intro answers
    cases answers with
    | get offset => exact congrArg Answer.cell (represents.get offset).symm
    | symbols lists => exact congrArg Answer.list (lists.unique represents.lists_symbols)
    | _ => rfl
  · rintro rfl
    cases move with
    | get offset =>
      rw [Tape.answer, represents.get]
      exact .get offset
    | put symbol offset => exact .put symbol offset
    | push symbol => exact .push symbol
    | advance count => exact .advance count
    | retreat count => exact .retreat count
    | reset => exact .reset
    | symbols => exact .symbols represents.lists_symbols

theorem traces_iff (represents : tape.Represents endless) {moves : List Move}
    (fits : endless.Fits moves) {trace : List (Answer × Nat)} :
    endless.Traces moves trace ↔ trace = tape.trace moves := by
  -- both tapes are as the moves before have left them
  induction moves generalizing tape endless trace with
  | nil =>
    constructor
    · rintro ⟨⟩
      rfl
    · rintro rfl
      exact .nil endless
  | cons move moves ih =>
    obtain ⟨within, stores, fitsRest⟩ := fits
    have next := represents.after within stores
    constructor
    · intro traces
      cases traces with
      | cons answers rest =>
        rw [Tape.trace, represents.answers_iff.mp answers, next.cursor, (ih next fitsRest).mp rest]
    · rintro rfl
      rw [Tape.trace, next.cursor]
      exact .cons (represents.answers_iff.mpr rfl) ((ih next fitsRest).mpr rfl)

end Represents

theorem get_put_of_ne (tape : Tape) (symbol : Option Symbol) {offset other : Int}
    (apart : other ≠ offset) : (tape.put symbol offset).get other = tape.get other := by
  cases place : tape.position? offset with
  | none => rw [put_of_position?_eq_none place]
  | some position =>
    have samePlaces : (tape.put symbol offset).position? other = tape.position? other := by
      simp only [position?, cursor_put]
    rw [get, get, samePlaces]
    cases read : tape.position? other with
    | none => rfl
    | some readPosition =>
      have elsewhere : readPosition ≠ position := by
        simp only [position?, Option.ite_none_right_eq_some, Option.some.injEq] at place read
        omega
      simp only [Option.bind_some]
      rw [cell_put place, if_neg elsewhere]

/-- From an empty tape on, all that is seen of the tape that grows is what is seen of the endless
one, and no write changes or uncovers what is read at another offset. -/
theorem traces_blank_iff {moves : List Move} (fits : EndlessTape.blank.Fits moves) :
    (∀ trace, EndlessTape.blank.Traces moves trace ↔ trace = ({} : Tape).trace moves) ∧
      ∀ symbol offset other, other ≠ offset →
        ((({} : Tape).run moves).put symbol offset).get other =
          (({} : Tape).run moves).get other :=
  ⟨fun _ => represents_blank.traces_iff fits,
    fun symbol _ _ apart => get_put_of_ne _ symbol apart⟩

theorem traces_blank_iff_gaps :
    let moves : List Move := [.push (some 3), .push (some 4), .put (some 9) 3, .get 1, .get 3,
      .get 0x7FFFFFFFFFFFFFFF, .symbols, .retreat 5, .put none 1, .put (some 8) (-1),
      .get (-0x8000000000000000), .symbols, .advance 5, .get 0]
    let seen : List (Answer × Nat) := [(.done, 1), (.done, 2), (.done, 2), (.cell none, 2),
      (.cell (some 9), 2), (.cell none, 2), (.list [3, 4], 2), (.done, 0), (.done, 0), (.done, 0),
      (.cell none, 0), (.list [3], 0), (.done, 5), (.cell (some 9), 5)]
    EndlessTape.blank.Fits moves ∧ ({} : Tape).trace moves = seen ∧
      EndlessTape.blank.Traces moves seen ∧
      ((({} : Tape).run moves).put (some 7) 4).get (-5) = some 3 := by
  intro moves seen
  have fits : EndlessTape.blank.Fits moves := by decide
  have traced : ({} : Tape).trace moves = seen := by decide +kernel
  obtain ⟨traces, elsewhere⟩ := traces_blank_iff fits
  refine ⟨fits, traced, (traces seen).mpr traced.symm, ?_⟩
  rw [elsewhere (some 7) 4 (-5) (by decide)]
  decide +kernel

end Tape

end OptimizedLookup
