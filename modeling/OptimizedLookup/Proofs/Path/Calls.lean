import OptimizedLookup.Proofs.Path.Safety

/-! Every part of the search undoes what it did. The search consists of six functions that call one
another. Called in the context of a path, whatever the address or the record it is called on, each
of them comes to the same under watch, and if it returns it leaves everything but what was found as
it was. -/
namespace OptimizedLookup

/-- A call of one of the functions of the search. Leaving an address is a call for the run behind
it: the records that consume nothing, or those on the token behind the input's cursor. -/
inductive Call where
  | visit (address : UInt32)
  | leaveFree (address : UInt32)
  | followFree (record : UInt32)
  | leaveMatching (address : UInt32)
  | followMatching (record : UInt32)
  | follow (record : UInt32)

namespace Call

def search (transducer : Transducer) (limit level : Nat) :
    Call → Context → Except DepthExceeded Context
  | .visit address, context => transducer.visit limit level (.ofTarget address) context
  | .leaveFree address, context =>
    transducer.leaveFree (transducer.visit limit level) (.ofTarget address) context
  | .followFree record, context =>
    transducer.followFree (transducer.visit limit level)
      (transducer.transitions.size - record.toNat) record.toNat context
  | .leaveMatching address, context =>
    transducer.leaveMatching (transducer.visit limit level) (.ofTarget address) context
  | .followMatching record, context =>
    match context.input.get (-1) with
    | none => .ok context
    | some token =>
      transducer.followMatching (transducer.visit limit level) token
        (transducer.transitions.size - record.toNat) record.toNat context
  | .follow record, context => transducer.follow (transducer.visit limit level) record.toNat context

/-- How a call goes on from an address, in the search for `count` tokens. On every path there is one
more visit than the limit allows. -/
def descent (transducer : Transducer) (limit count depth : Nat) : Watched.Descent :=
  Watched.visit transducer limit count (limit - depth + 1)

def run (transducer : Transducer) (limit count : Nat) : Call → Watched → Except Stop Watched
  | .visit address, watched => descent transducer limit count watched.depth address watched
  | .leaveFree address, watched =>
    Watched.leaveFree transducer (descent transducer limit count watched.depth) address watched
  | .followFree record, watched =>
    Watched.followFree transducer (descent transducer limit count watched.depth)
      (transducer.transitions.size + 1) record watched
  | .leaveMatching address, watched =>
    match watched.context.input.get (-1) with
    | none => .ok watched
    | some token =>
      Watched.leaveMatching transducer (descent transducer limit count watched.depth) address token
        watched
  | .followMatching record, watched =>
    match watched.context.input.get (-1) with
    | none => .ok watched
    | some token =>
      Watched.followMatching transducer (descent transducer limit count watched.depth) token
        (transducer.transitions.size + 1) record watched
  | .follow record, watched =>
    Watched.follow transducer (descent transducer limit count watched.depth) record watched

end Call

namespace Watched

/-- What is the same after a call that returns: all of the context but the output from the cursor
on and what was found, of which nothing is lost, and the number of visits. -/
structure Undone (before after : Watched) : Prop where
  context : before.context.Restored after.context
  depth : after.depth = before.depth
  found : before.context.found.toList <+: after.context.found.toList

end Watched

section Runs

variable {transducer : Transducer} {limit depth : Nat} {tokens : List Symbol}
  {path : List Nat} {point : Point} {context : Context}

theorem Context.At.moved (standing : context.At transducer tokens path point) (address : UInt32) :
    context.At transducer tokens path { point with address := address } :=
  ⟨standing.input, standing.rest, standing.cursor, standing.output, standing.flags,
    standing.weight⟩

theorem Context.At.map_cell (standing : context.At transducer tokens path point) :
    (List.range context.output.cursor).map context.output.cell =
      path.map transducer.transitions.output? := by
  apply List.ext_getElem?
  intro position
  rw [standing.cursor, List.getElem?_map, List.getElem?_map]
  by_cases within : position < path.length
  · rw [List.getElem?_range within, Option.map_some, standing.output position within,
      List.getElem?_map, List.getElem?_eq_getElem within]
    rfl
  · have beyond := Nat.le_of_not_lt within
    rw [List.getElem?_eq_none (by rwa [List.length_range]), List.getElem?_eq_none beyond]
    rfl

namespace Call

theorem run_eq_report (small : transducer.transitions.size < 0x80000000)
    (standing : context.At transducer tokens path point) (within : depth ≤ limit) (call : Call) :
    call.run transducer limit tokens.length ⟨context, depth⟩ =
      Watched.report depth (call.search transducer limit (limit - depth) context) := by
  have left : depth + (limit - depth) = limit := Nat.add_sub_cancel' within
  have agrees := Watched.visit_agrees small limit (limit - depth) tokens
  have enough (record : UInt32) :
      transducer.transitions.size - record.toNat < transducer.transitions.size + 1 := by omega
  cases call with
  | visit address => exact agrees path _ context depth (standing.moved address) left
  | leaveFree address =>
    exact Watched.leaveFree_eq_report agrees small (standing.moved address) left
  | followFree record =>
    exact Watched.followFree_eq_report agrees small standing left (enough record)
  | leaveMatching address =>
    cases behind : context.input.get (-1) with
    | none => simp only [run, search, Transducer.leaveMatching, behind, Watched.report]
    | some token =>
      simp only [run, behind]
      exact Watched.leaveMatching_eq_report_of_get agrees small (standing.moved address) left behind
  | followMatching record =>
    cases behind : context.input.get (-1) with
    | none => simp only [run, search, behind, Watched.report]
    | some token =>
      simp only [run, search, behind]
      exact Watched.followMatching_eq_report agrees small standing left token (enough record)
  | follow record => exact Watched.follow_eq_report agrees standing left record

theorem exists_finds (standing : context.At transducer tokens path point) (limit level : Nat)
    (call : Call) : ∃ overrun analyses,
      Transducer.Finds limit context overrun analyses
        (call.search transducer limit level context) := by
  have agrees := transducer.visit_agrees limit level tokens
  cases call with
  | visit address => exact ⟨_, _, agrees path _ context (standing.moved address)⟩
  | leaveFree address =>
    exact ⟨_, _, Transducer.leaveFree_takes agrees (standing.moved address)⟩
  | followFree record => exact ⟨_, _, Transducer.followFree_takes agrees _ _ standing⟩
  | leaveMatching address =>
    simp only [search, Transducer.leaveMatching]
    cases context.input.get (-1) with
    | none => exact ⟨_, _, Transducer.finds_nothing context⟩
    | some token =>
      dsimp only
      cases transducer.runStart? (.ofTarget address) token with
      | none => exact ⟨_, _, Transducer.finds_nothing context⟩
      | some first => exact ⟨_, _, Transducer.followMatching_takes agrees token _ _ standing⟩
  | followMatching record =>
    simp only [search]
    cases context.input.get (-1) with
    | none => exact ⟨_, _, Transducer.finds_nothing context⟩
    | some token => exact ⟨_, _, Transducer.followMatching_takes agrees token _ _ standing⟩
  | follow record => exact ⟨_, _, Transducer.follow_takes agrees standing record.toNat⟩

theorem undone_of_run {watched after : Watched}
    (small : transducer.transitions.size < 0x80000000)
    (standing : watched.context.At transducer tokens path point) (within : watched.depth ≤ limit)
    {call : Call} (returned : call.run transducer limit tokens.length watched = .ok after) :
    watched.Undone after := by
  obtain ⟨overrun, analyses, finds⟩ := exists_finds standing limit (limit - watched.depth) call
  rw [run_eq_report small standing within] at returned
  cases searched : call.search transducer limit (limit - watched.depth) watched.context with
  | error error =>
    rw [searched] at returned
    cases returned
  | ok last =>
    rw [searched] at returned finds
    cases returned
    obtain ⟨restored, found⟩ := finds.of_ok
    exact ⟨restored, rfl, analyses, found.symm⟩

end Call

end Runs

end OptimizedLookup
