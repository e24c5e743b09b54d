import OptimizedLookup.Proofs.Path.Search

/-! The search under watch. Here addresses are 32-bit numbers, visits are counted as they are entered
and left, and there is no other end to a run of records than a record that does not belong to it.
Each step is taken only if it does what it is meant to do; where it would not, the search stops. -/
namespace OptimizedLookup

/-- What must not happen: an address that is no 32-bit number, more visits than the limit allows or
the end of one that was not entered, a cursor past the last token, another symbol behind the cursor
than it stepped past, a tape moved back past its start, a run of records that does not stop, and a
visit that does not return. -/
inductive Breach where
  | address
  | depth
  | input
  | token
  | retreat
  | run
  | visit
  deriving DecidableEq

inductive Stop where
  | exceeded (error : DepthExceeded)
  | breach (breach : Breach)
  deriving DecidableEq

structure Watched where
  context : Context
  depth : Nat

namespace Watched

def ensure (condition : Prop) [Decidable condition] (breach : Breach) : Except Stop Unit :=
  if condition then .ok () else .error (.breach breach)

def plus (left right : UInt32) : Except Stop UInt32 := do
  ensure (left.toNat + right.toNat < 0x100000000) .address
  return left + right

def minus (left right : UInt32) : Except Stop UInt32 := do
  ensure (right ≤ left) .address
  return left - right

def enter (limit : Nat) (watched : Watched) : Except Stop Watched := do
  ensure (watched.depth + 1 ≤ limit) .depth
  return { watched with depth := watched.depth + 1 }

def leave (watched : Watched) : Except Stop Watched := do
  ensure (1 ≤ watched.depth) .depth
  return { watched with depth := watched.depth - 1 }

def consume (count : Nat) (watched : Watched) : Except Stop Watched := do
  let input := watched.context.input.advance 1
  ensure (input.cursor ≤ count) .input
  return { watched with context := { watched.context with input := input } }

def retreat (tape : Tape) : Except Stop Tape := do
  ensure (1 ≤ tape.cursor) .retreat
  return tape.retreat 1

abbrev Descent := UInt32 → Watched → Except Stop Watched

def recordAt? (target : UInt32) : Option UInt32 :=
  if transitionBase ≤ target then some (target - transitionBase) else none

def runStart? (transducer : Transducer) (address : UInt32) (symbol : Symbol) :
    Except Stop (Option UInt32) :=
  if transitionBase ≤ address then do
    let index ← minus address transitionBase
    let first ← plus index 1
    return some first
  else do
    let next ← plus address 1
    let slot ← plus next symbol.toUInt32
    if transducer.index.input? slot.toNat = some symbol then
      return (transducer.index.target? slot.toNat).bind recordAt?
    else return none

def follow (transducer : Transducer) (descend : Descent) (record : UInt32) (watched : Watched) :
    Except Stop Watched :=
  match transducer.transitions.target? record.toNat with
  | none => .ok watched
  | some target => do
    let weight := watched.context.weight
    let after ← descend target
      { watched with context := watched.context.behind transducer record.toNat }
    let output ← retreat after.context.output
    return { after with context := { after.context with output := output, weight := weight } }

def followFree (transducer : Transducer) (descend : Descent) :
    (count : Nat) → (record : UInt32) → Watched → Except Stop Watched
  | 0, _, _ => .error (.breach .run)
  | count + 1, record, watched =>
    match transducer.transitions.input? record.toNat with
    | none => .ok watched
    | some symbol =>
      if symbol = 0 then do
        let watched ← follow transducer descend record watched
        let next ← plus record 1
        followFree transducer descend count next watched
      else
        match transducer.alphabet.operation? symbol with
        | none => .ok watched
        | some operation =>
          match watched.context.flags.push? operation with
          | none => do
            let next ← plus record 1
            followFree transducer descend count next watched
          | some flags => do
            let after ← follow transducer descend record
              { watched with context := { watched.context with flags := flags } }
            let next ← plus record 1
            followFree transducer descend count next
              { after with context := { after.context with flags := after.context.flags.pop } }

def followMatching (transducer : Transducer) (descend : Descent) (symbol : Symbol) :
    (count : Nat) → (record : UInt32) → Watched → Except Stop Watched
  | 0, _, _ => .error (.breach .run)
  | count + 1, record, watched =>
    if transducer.transitions.input? record.toNat = some symbol then do
      let watched ← follow transducer descend record watched
      let next ← plus record 1
      followMatching transducer descend symbol count next watched
    else .ok watched

def leaveFree (transducer : Transducer) (descend : Descent) (address : UInt32)
    (watched : Watched) : Except Stop Watched := do
  match ← runStart? transducer address 0 with
  | none => return watched
  | some first =>
    followFree transducer descend (transducer.transitions.size + 1) first watched

def leaveMatching (transducer : Transducer) (descend : Descent) (address : UInt32)
    (token : Symbol) (watched : Watched) : Except Stop Watched := do
  ensure (watched.context.input.get (-1) = some token) .token
  match ← runStart? transducer address token with
  | none => return watched
  | some first =>
    followMatching transducer descend token (transducer.transitions.size + 1) first watched

def visit (transducer : Transducer) (limit tokens : Nat) : (calls : Nat) → Descent
  | 0, _, _ => .error (.breach .visit)
  | calls + 1, address, watched =>
    if limit ≤ watched.depth then .error (.exceeded ⟨limit⟩)
    else do
      let watched ← watched.enter limit
      let watched ← leaveFree transducer (visit transducer limit tokens calls) address watched
      match watched.context.input.get 0 with
      | none =>
        match transducer.finalWeight? (.ofTarget address) with
        | none => watched.leave
        | some weight =>
          leave { watched with context := watched.context.note transducer.alphabet weight }
      | some token => do
        let consumed ← watched.consume tokens
        let after ← leaveMatching transducer (visit transducer limit tokens calls) address token
          consumed
        let input ← retreat after.context.input
        leave { after with context := { after.context with
          input := input
          output := after.context.output.put none 0 } }

end Watched

namespace Transducer

end Transducer

namespace Watched

theorem ensure_of {condition : Prop} [Decidable condition] (holds : condition) (breach : Breach) :
    ensure condition breach = .ok () :=
  if_pos holds

theorem of_ensure_bind {α : Type} {condition : Prop} [Decidable condition] {breach : Breach}
    {next : Unit → Except Stop α} {result : α}
    (ran : (ensure condition breach >>= next) = .ok result) :
    condition ∧ next () = .ok result := by
  by_cases holds : condition
  · rw [ensure_of holds] at ran
    exact ⟨holds, ran⟩
  · rw [ensure, if_neg holds] at ran
    cases ran

theorem of_enter {limit : Nat} {watched inside : Watched}
    (entered : watched.enter limit = .ok inside) :
    watched.depth + 1 ≤ limit ∧ inside = { watched with depth := watched.depth + 1 } := by
  obtain ⟨within, same⟩ := of_ensure_bind entered
  cases same
  exact ⟨within, rfl⟩

theorem of_consume {count : Nat} {watched consumed : Watched}
    (stepped : watched.consume count = .ok consumed) :
    consumed = { watched with
      context := { watched.context with input := watched.context.input.advance 1 } } := by
  obtain ⟨-, same⟩ := of_ensure_bind stepped
  cases same
  rfl

theorem toNat_of_plus {left right sum : UInt32} (added : plus left right = .ok sum) :
    sum.toNat = left.toNat + right.toNat := by
  obtain ⟨within, same⟩ := of_ensure_bind added
  cases same
  rw [UInt32.toNat_add]
  exact Nat.mod_eq_of_lt within

theorem exists_plus {left right : UInt32} (within : left.toNat + right.toNat < 0x100000000) :
    ∃ sum, plus left right = .ok sum ∧ sum.toNat = left.toNat + right.toNat := by
  refine ⟨left + right, ?_, ?_⟩
  · rw [plus, ensure_of within]
    rfl
  · rw [UInt32.toNat_add]
    exact Nat.mod_eq_of_lt within

theorem exists_minus {left right : UInt32} (within : right ≤ left) :
    ∃ difference, minus left right = .ok difference ∧
      difference.toNat = left.toNat - right.toNat := by
  refine ⟨left - right, ?_, UInt32.toNat_sub_of_le _ _ within⟩
  rw [minus, ensure_of within]
  rfl

theorem enter_eq_ok {limit : Nat} {watched : Watched} (within : watched.depth < limit) :
    watched.enter limit = .ok { watched with depth := watched.depth + 1 } := by
  rw [enter, ensure_of (Nat.succ_le_of_lt within)]
  rfl

theorem leave_eq_ok (context : Context) (depth : Nat) :
    leave ⟨context, depth + 1⟩ = .ok ⟨context, depth⟩ := by
  rw [leave, ensure_of (Nat.le_add_left 1 depth)]
  rfl

theorem consume_eq_ok {context : Context} {count : Nat}
    (within : (context.input.advance 1).cursor ≤ count) (depth : Nat) :
    consume count ⟨context, depth⟩ =
      .ok ⟨{ context with input := context.input.advance 1 }, depth⟩ := by
  rw [consume, ensure_of within]
  rfl

theorem retreat_eq_ok {tape : Tape} (moved : 1 ≤ tape.cursor) :
    retreat tape = .ok (tape.retreat 1) := by
  rw [retreat, ensure_of moved]
  rfl

end Watched

end OptimizedLookup
