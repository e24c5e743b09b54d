import OptimizedLookup.Proofs.Path.Calls

/-! Where the search for a word comes to. Here are the calls that are made while a word is looked
up, each with the path that the search is on and the context it is made in, and the contexts that
the calls return. All of them are contexts of a path through the tables, and every call that is made
in one of them undoes what it did. -/
namespace OptimizedLookup

namespace Transducer

/-- The calls that are made in the search for a list of tokens, whether or not it ends within the
limit. The path has the records that the search has taken on its way to the call and not come
back from. -/
inductive Called (transducer : Transducer) (limit : Nat) (tokens : List Symbol) :
    List Nat → Call → Watched → Prop
  | start : Called transducer limit tokens [] (.visit 0)
      ⟨.ofSymbols tokens transducer.alphabet.featureCount, 0⟩
  | leaveFree {path : List Nat} {address : UInt32} {watched inside : Watched}
      (called : Called transducer limit tokens path (.visit address) watched)
      (entered : watched.enter limit = .ok inside) :
      Called transducer limit tokens path (.leaveFree address) inside
  | leaveMatching {path : List Nat} {address : UInt32} {token : Symbol}
      {inside after consumed : Watched}
      (called : Called transducer limit tokens path (.leaveFree address) inside)
      (returned : (Call.leaveFree address).run transducer limit tokens.length inside = .ok after)
      (next : after.context.input.get 0 = some token)
      (stepped : after.consume tokens.length = .ok consumed) :
      Called transducer limit tokens path (.leaveMatching address) consumed
  | followFree {path : List Nat} {address first : UInt32} {watched : Watched}
      (called : Called transducer limit tokens path (.leaveFree address) watched)
      (start : Watched.runStart? transducer address 0 = .ok (some first)) :
      Called transducer limit tokens path (.followFree first) watched
  | followMatching {path : List Nat} {address first : UInt32} {token : Symbol}
      {watched : Watched}
      (called : Called transducer limit tokens path (.leaveMatching address) watched)
      (behind : watched.context.input.get (-1) = some token)
      (start : Watched.runStart? transducer address token = .ok (some first)) :
      Called transducer limit tokens path (.followMatching first) watched
  -- A record of a run that consumes nothing is followed, and then it is the next record's turn.
  | epsilon {path : List Nat} {record : UInt32} {watched : Watched}
      (called : Called transducer limit tokens path (.followFree record) watched)
      (input : transducer.transitions.input? record.toNat = some 0) :
      Called transducer limit tokens path (.follow record) watched
  | pastEpsilon {path : List Nat} {record next : UInt32} {watched after : Watched}
      (called : Called transducer limit tokens path (.followFree record) watched)
      (input : transducer.transitions.input? record.toNat = some 0)
      (returned : (Call.follow record).run transducer limit tokens.length watched = .ok after)
      (onward : Watched.plus record 1 = .ok next) :
      Called transducer limit tokens path (.followFree next) after
  | flag {path : List Nat} {record : UInt32} {symbol : Symbol} {operation : Flag.Operation}
      {flags : Flag.Stack} {watched : Watched}
      (called : Called transducer limit tokens path (.followFree record) watched)
      (input : transducer.transitions.input? record.toNat = some symbol) (proper : symbol ≠ 0)
      (isFlag : transducer.alphabet.operation? symbol = some operation)
      (accepted : watched.context.flags.push? operation = some flags) :
      Called transducer limit tokens path (.follow record)
        { watched with context := { watched.context with flags := flags } }
  | pastFlag {path : List Nat} {record next : UInt32} {symbol : Symbol}
      {operation : Flag.Operation} {flags : Flag.Stack} {watched after : Watched}
      (called : Called transducer limit tokens path (.followFree record) watched)
      (input : transducer.transitions.input? record.toNat = some symbol) (proper : symbol ≠ 0)
      (isFlag : transducer.alphabet.operation? symbol = some operation)
      (accepted : watched.context.flags.push? operation = some flags)
      (returned : (Call.follow record).run transducer limit tokens.length
        { watched with context := { watched.context with flags := flags } } = .ok after)
      (onward : Watched.plus record 1 = .ok next) :
      Called transducer limit tokens path (.followFree next)
        { after with context := { after.context with flags := after.context.flags.pop } }
  | pastForbidden {path : List Nat} {record next : UInt32} {symbol : Symbol}
      {operation : Flag.Operation} {watched : Watched}
      (called : Called transducer limit tokens path (.followFree record) watched)
      (input : transducer.transitions.input? record.toNat = some symbol) (proper : symbol ≠ 0)
      (isFlag : transducer.alphabet.operation? symbol = some operation)
      (forbidden : watched.context.flags.push? operation = none)
      (onward : Watched.plus record 1 = .ok next) :
      Called transducer limit tokens path (.followFree next) watched
  -- The same for a run on the token that the input has just stepped past.
  | token {path : List Nat} {record : UInt32} {token : Symbol} {watched : Watched}
      (called : Called transducer limit tokens path (.followMatching record) watched)
      (behind : watched.context.input.get (-1) = some token)
      (input : transducer.transitions.input? record.toNat = some token) :
      Called transducer limit tokens path (.follow record) watched
  | pastToken {path : List Nat} {record next : UInt32} {token : Symbol}
      {watched after : Watched}
      (called : Called transducer limit tokens path (.followMatching record) watched)
      (behind : watched.context.input.get (-1) = some token)
      (input : transducer.transitions.input? record.toNat = some token)
      (returned : (Call.follow record).run transducer limit tokens.length watched = .ok after)
      (onward : Watched.plus record 1 = .ok next) :
      Called transducer limit tokens path (.followMatching next) after
  | visit {path : List Nat} {record address : UInt32} {watched : Watched}
      (called : Called transducer limit tokens path (.follow record) watched)
      (target : transducer.transitions.target? record.toNat = some address) :
      Called transducer limit tokens (path ++ [record.toNat]) (.visit address)
        { watched with context := watched.context.behind transducer record.toNat }

/-- The contexts of the search for a list of tokens: those in which a call is made and those that a
call returns. -/
inductive Reached (transducer : Transducer) (limit : Nat) (tokens : List Symbol) :
    List Nat → Watched → Prop
  | called {path : List Nat} {call : Call} {watched : Watched}
      (called : transducer.Called limit tokens path call watched) :
      Reached transducer limit tokens path watched
  | returned {path : List Nat} {call : Call} {before after : Watched}
      (called : transducer.Called limit tokens path call before)
      (returned : call.run transducer limit tokens.length before = .ok after) :
      Reached transducer limit tokens path after

def RunsTo (belongs : Nat → Prop) (first record : Nat) : Prop :=
  first ≤ record ∧ ∀ other, first ≤ other → other < record → belongs other

theorem runsTo_first (belongs : Nat → Prop) (first : Nat) : RunsTo belongs first first :=
  ⟨Nat.le_refl first, fun _ low high => absurd low (Nat.not_le.mpr high)⟩

theorem RunsTo.inRun {belongs : Nat → Prop} {first record : Nat}
    (run : RunsTo belongs first record) (own : belongs record) : InRun belongs first record := by
  refine ⟨run.1, fun other low high => ?_⟩
  obtain before | same := Nat.lt_or_eq_of_le high
  · exact run.2 other low before
  · exact same ▸ own

theorem RunsTo.next {belongs : Nat → Prop} {first record : Nat}
    (run : RunsTo belongs first record) (own : belongs record) :
    RunsTo belongs first (record + 1) :=
  ⟨Nat.le_succ_of_le run.1, fun other low high =>
    (run.inRun own).2 other low (Nat.le_of_lt_succ high)⟩

/-- A call is made in the context of a path that goes as far as the call's address, or as far as the
address whose run the call's record is in. Between a token that was stepped past, or a flag that was
accepted, and the record that is followed for it the context is one step ahead of the path. -/
inductive Stands (transducer : Transducer) (tokens : List Symbol) (path : List Nat)
    (context : Context) : Call → Prop
  | visit {point : Point}
      (follows : transducer.Follows (transducer.origin tokens) path point)
      (standing : context.At transducer tokens path point) :
      Stands transducer tokens path context (.visit point.address)
  | leaveFree {point : Point}
      (follows : transducer.Follows (transducer.origin tokens) path point)
      (standing : context.At transducer tokens path point) :
      Stands transducer tokens path context (.leaveFree point.address)
  | followFree {point : Point} {first : Nat} {record : UInt32}
      (follows : transducer.Follows (transducer.origin tokens) path point)
      (standing : context.At transducer tokens path point)
      (start : transducer.RunStart 0 point.address first)
      (run : RunsTo transducer.ConsumesNothing first record.toNat) :
      Stands transducer tokens path context (.followFree record)
  | leaveMatching {point : Point} {token : Symbol} {rest : List Symbol}
      (follows : transducer.Follows (transducer.origin tokens) path point)
      (onward : point.rest = token :: rest)
      (standing : context.At transducer tokens path { point with rest := rest })
      (behind : context.input.get (-1) = some token) :
      Stands transducer tokens path context (.leaveMatching point.address)
  | followMatching {point : Point} {token : Symbol} {rest : List Symbol} {first : Nat}
      {record : UInt32}
      (follows : transducer.Follows (transducer.origin tokens) path point)
      (onward : point.rest = token :: rest)
      (standing : context.At transducer tokens path { point with rest := rest })
      (behind : context.input.get (-1) = some token)
      (start : transducer.RunStart token point.address first)
      (run : RunsTo (fun other => transducer.transitions.input? other = some token) first
        record.toNat) :
      Stands transducer tokens path context (.followMatching record)
  | follow {point ahead : Point} {record : UInt32}
      (follows : transducer.Follows (transducer.origin tokens) path point)
      (standing : context.At transducer tokens path ahead)
      (leads : ∀ address, transducer.transitions.target? record.toNat = some address →
        transducer.Step point record.toNat { ahead with address := address }) :
      Stands transducer tokens path context (.follow record)

section Stands

variable {transducer : Transducer} {limit : Nat} {tokens : List Symbol} {path : List Nat}
  {context after : Context}

theorem Stands.exists_at {call : Call} (stands : transducer.Stands tokens path context call) :
    ∃ point ahead, transducer.Follows (transducer.origin tokens) path point ∧
      context.At transducer tokens path ahead := by
  cases stands with
  | visit follows standing => exact ⟨_, _, follows, standing⟩
  | leaveFree follows standing => exact ⟨_, _, follows, standing⟩
  | followFree follows standing => exact ⟨_, _, follows, standing⟩
  | leaveMatching follows onward standing => exact ⟨_, _, follows, standing⟩
  | followMatching follows onward standing => exact ⟨_, _, follows, standing⟩
  | follow follows standing => exact ⟨_, _, follows, standing⟩

theorem stands_start (transducer : Transducer) (tokens : List Symbol) :
    transducer.Stands tokens [] (.ofSymbols tokens transducer.alphabet.featureCount) (.visit 0) :=
  .visit (.nil (transducer.origin tokens)) (transducer.at_ofSymbols tokens)

theorem Stands.toLeaveFree {address : UInt32}
    (stands : transducer.Stands tokens path context (.visit address)) :
    transducer.Stands tokens path context (.leaveFree address) := by
  cases stands with
  | visit follows standing => exact .leaveFree follows standing

theorem Stands.toLeaveMatching {address : UInt32} {token : Symbol}
    (stands : transducer.Stands tokens path context (.leaveFree address))
    (restored : context.Restored after) (next : after.input.get 0 = some token) :
    transducer.Stands tokens path { after with input := after.input.advance 1 }
      (.leaveMatching address) := by
  cases stands with
  | leaveFree follows standing =>
    have standingAfter := standing.restored restored
    rw [Tape.get_zero, standingAfter.next] at next
    obtain ⟨rest, onward⟩ := List.head?_eq_some_iff.mp next
    have consuming := standingAfter.consuming
    rw [onward] at consuming
    exact .leaveMatching follows onward consuming (standingAfter.consumed onward)

theorem Stands.toFollowFree {address first : UInt32}
    (stands : transducer.Stands tokens path context (.leaveFree address))
    (start : transducer.RunStart 0 address first.toNat) :
    transducer.Stands tokens path context (.followFree first) := by
  cases stands with
  | leaveFree follows standing => exact .followFree follows standing start (runsTo_first _ _)

theorem Stands.toFollowMatching {address first : UInt32} {token : Symbol}
    (stands : transducer.Stands tokens path context (.leaveMatching address))
    (behind : context.input.get (-1) = some token)
    (start : transducer.RunStart token address first.toNat) :
    transducer.Stands tokens path context (.followMatching first) := by
  cases stands with
  | leaveMatching follows onward standing own =>
    cases own.symm.trans behind
    exact .followMatching follows onward standing behind start (runsTo_first _ _)

theorem Stands.epsilon {record : UInt32}
    (stands : transducer.Stands tokens path context (.followFree record))
    (input : transducer.transitions.input? record.toNat = some 0) :
    transducer.Stands tokens path context (.follow record) := by
  cases stands with
  | followFree follows standing start run =>
    have own : transducer.ConsumesNothing record.toNat := ⟨0, input, .inl rfl⟩
    exact .follow follows standing fun _ target =>
      .epsilon ⟨_, start, run.inRun own⟩ input target

theorem consumesNothing_of_flag {record : Nat} {symbol : Symbol} {operation : Flag.Operation}
    (input : transducer.transitions.input? record = some symbol)
    (isFlag : transducer.alphabet.operation? symbol = some operation) :
    transducer.ConsumesNothing record :=
  ⟨symbol, input, .inr (by rw [Alphabet.isFlag, isFlag]; rfl)⟩

theorem Stands.flag {record : UInt32} {symbol : Symbol} {operation : Flag.Operation}
    {flags : Flag.Stack} (stands : transducer.Stands tokens path context (.followFree record))
    (input : transducer.transitions.input? record.toNat = some symbol) (proper : symbol ≠ 0)
    (isFlag : transducer.alphabet.operation? symbol = some operation)
    (accepted : context.flags.push? operation = some flags) :
    transducer.Stands tokens path { context with flags := flags } (.follow record) := by
  cases stands with
  | followFree follows standing start run =>
    have own := consumesNothing_of_flag input isFlag
    have passed := standing.flags ▸ accepted
    exact .follow follows (standing.passing flags) fun _ target =>
      .flag ⟨_, start, run.inRun own⟩ input proper isFlag passed target

theorem Stands.nextFree {record next : UInt32}
    (stands : transducer.Stands tokens path context (.followFree record))
    (restored : context.Restored after) (own : transducer.ConsumesNothing record.toNat)
    (onward : Watched.plus record 1 = .ok next) :
    transducer.Stands tokens path after (.followFree next) := by
  cases stands with
  | followFree follows standing start run =>
    refine .followFree follows (standing.restored restored) start ?_
    rw [Watched.toNat_of_plus onward]
    exact run.next own

theorem Stands.token {record : UInt32} {token : Symbol}
    (stands : transducer.Stands tokens path context (.followMatching record))
    (behind : context.input.get (-1) = some token)
    (input : transducer.transitions.input? record.toNat = some token) :
    transducer.Stands tokens path context (.follow record) := by
  cases stands with
  | followMatching follows onward standing own start run =>
    cases own.symm.trans behind
    exact .follow follows standing fun _ target =>
      .token onward ⟨_, start, run.inRun input⟩ target

theorem Stands.nextMatching {record next : UInt32} {token : Symbol}
    (stands : transducer.Stands tokens path context (.followMatching record))
    (restored : context.Restored after) (behind : context.input.get (-1) = some token)
    (input : transducer.transitions.input? record.toNat = some token)
    (onward : Watched.plus record 1 = .ok next) :
    transducer.Stands tokens path after (.followMatching next) := by
  cases stands with
  | followMatching follows consumed standing own start run =>
    cases own.symm.trans behind
    refine .followMatching follows consumed (standing.restored restored)
      (restored.input ▸ behind) start ?_
    rw [Watched.toNat_of_plus onward]
    exact run.next input

theorem Stands.toVisit {record address : UInt32}
    (stands : transducer.Stands tokens path context (.follow record))
    (target : transducer.transitions.target? record.toNat = some address) :
    transducer.Stands tokens (path ++ [record.toNat]) (context.behind transducer record.toNat)
      (.visit address) := by
  cases stands with
  | @follow point ahead _ follows standing leads =>
    have longer := follows.append (.cons (leads address target) (.nil _))
    exact .visit longer (standing.behind record.toNat address)

theorem Stands.undone {watched last : Watched} {call : Call}
    (stands : transducer.Stands tokens path watched.context call)
    (small : transducer.transitions.size < 0x80000000) {other : Call}
    (returned : other.run transducer limit tokens.length watched = .ok last)
    (within : watched.depth ≤ limit) :
    watched.Undone last := by
  obtain ⟨_, _, -, standing⟩ := stands.exists_at
  exact Call.undone_of_run small standing within returned

end Stands

variable {source : Source} {transducer : Transducer} {limit : Nat} {tokens : List Symbol}
  {path : List Nat} {watched : Watched}

theorem stands_of_called (small : transducer.transitions.size < 0x80000000) {call : Call}
    (called : transducer.Called limit tokens path call watched) :
    watched.depth ≤ limit ∧ transducer.Stands tokens path watched.context call := by
  -- A call that comes after another one is made in the context which that one returned, and there
  -- everything is as it was before.
  induction called with
  | start => exact ⟨Nat.zero_le limit, transducer.stands_start tokens⟩
  | leaveFree _ entered ih =>
    obtain ⟨within, rfl⟩ := Watched.of_enter entered
    exact ⟨within, ih.2.toLeaveFree⟩
  | leaveMatching _ returned next stepped ih =>
    have undone := ih.2.undone small returned ih.1
    cases Watched.of_consume stepped
    exact ⟨undone.depth ▸ ih.1, ih.2.toLeaveMatching undone.context next⟩
  | followFree _ start ih =>
    exact ⟨ih.1, ih.2.toFollowFree (Watched.runStart_of_runStart? start)⟩
  | followMatching _ behind start ih =>
    exact ⟨ih.1, ih.2.toFollowMatching behind (Watched.runStart_of_runStart? start)⟩
  | epsilon _ input ih => exact ⟨ih.1, ih.2.epsilon input⟩
  | pastEpsilon _ input returned onward ih =>
    have undone := ih.2.undone small returned ih.1
    exact ⟨undone.depth ▸ ih.1, ih.2.nextFree undone.context ⟨0, input, .inl rfl⟩ onward⟩
  | flag _ input proper isFlag accepted ih =>
    exact ⟨ih.1, ih.2.flag input proper isFlag accepted⟩
  | pastFlag _ input proper isFlag accepted returned onward ih =>
    have passed := ih.2.flag input proper isFlag accepted
    have undone := passed.undone small returned ih.1
    exact ⟨undone.depth ▸ ih.1, ih.2.nextFree (undone.context.pop accepted)
      (consumesNothing_of_flag input isFlag) onward⟩
  | pastForbidden _ input _ isFlag _ onward ih =>
    exact ⟨ih.1, ih.2.nextFree (.refl _) (consumesNothing_of_flag input isFlag) onward⟩
  | token _ behind input ih => exact ⟨ih.1, ih.2.token behind input⟩
  | pastToken _ behind input returned onward ih =>
    have undone := ih.2.undone small returned ih.1
    exact ⟨undone.depth ▸ ih.1, ih.2.nextMatching undone.context behind input onward⟩
  | visit _ target ih => exact ⟨ih.1, ih.2.toVisit target⟩

theorem exists_at_of_reached (small : transducer.transitions.size < 0x80000000)
    (reached : transducer.Reached limit tokens path watched) :
    watched.depth ≤ limit ∧ ∃ point ahead,
      transducer.Follows (transducer.origin tokens) path point ∧
      watched.context.At transducer tokens path ahead := by
  cases reached with
  | called called =>
    obtain ⟨within, stands⟩ := stands_of_called small called
    exact ⟨within, stands.exists_at⟩
  | returned called returned =>
    obtain ⟨within, stands⟩ := stands_of_called small called
    have undone := stands.undone small returned within
    obtain ⟨point, ahead, follows, standing⟩ := stands.exists_at
    exact ⟨undone.depth ▸ within, point, ahead, follows, standing.restored undone.context⟩

/-- Wherever the search for a word is, the output has the symbols of the records of its path, in
their order. A call that is made there, on any address or record, does nothing that it must not do
and comes to what it comes to without watch. If it returns it has undone all that it did, except
that what was found stays found. -/
theorem run_undone_of_reached (loaded : load source = .ok transducer)
    (reached : transducer.Reached limit tokens path watched) :
    (∀ call : Call, call.run transducer limit tokens.length watched =
      Watched.report watched.depth
        (call.search transducer limit (limit - watched.depth) watched.context)) ∧
    (∀ (call : Call) (after : Watched),
      call.run transducer limit tokens.length watched = .ok after → watched.Undone after) ∧
    (∃ point, transducer.Follows (transducer.origin tokens) path point) ∧
    (List.range watched.context.output.cursor).map watched.context.output.cell =
      path.map transducer.transitions.output? := by
  have small := size_lt_of_load loaded
  obtain ⟨within, point, ahead, follows, standing⟩ := exists_at_of_reached small reached
  exact ⟨fun call => call.run_eq_report small standing within,
    fun call after returned => call.undone_of_run small standing within returned,
    ⟨point, follows⟩, standing.map_cell⟩

theorem run_undone_of_reached_twoPaths :
    ∃ (transducer : Transducer) (watched after : Watched),
      load (.ofBytes Layout.twoPaths.bytes) = .ok transducer ∧
      transducer.Reached 3 [1] [0] watched ∧
      (List.range watched.context.output.cursor).map watched.context.output.cell = [some 0] ∧
      (Call.visit 0x80000003).run transducer 3 1 watched = .ok after ∧
      after.context.found.size = 1 ∧ watched.Undone after := by
  have looked : (ofBytes Layout.twoPaths.bytes).toOption.map (fun transducer =>
      let context := Context.ofSymbols [1] transducer.alphabet.featureCount
      let transitions := transducer.transitions
      ((Watched.runStart? transducer 0 0).toOption.map id, transitions.input? 0,
        transitions.target? 0, transitions.output? 0,
        (transducer.alphabet.operation? 2).bind fun operation =>
          (context.flags.push? operation).bind fun flags =>
            ((Call.visit 0x80000003).run transducer 3 1
                ⟨{ context with flags := flags }.behind transducer 0, 1⟩).toOption.map
              fun after => after.context.found.size)) =
      some (some (some 0), some 2, some 0x80000003, some 0, some 1) := by
    decide +kernel
  obtain ⟨transducer, loaded, view⟩ := exists_ok_of_map looked
  simp only [Prod.mk.injEq] at view
  obtain ⟨starts, input, target, output, visits⟩ := view
  obtain ⟨_, start, rfl⟩ := exists_ok_of_map starts
  obtain ⟨operation, isFlag, passes⟩ := Option.bind_eq_some_iff.mp visits
  obtain ⟨flags, accepted, returns⟩ := Option.bind_eq_some_iff.mp passes
  obtain ⟨after, returned, size⟩ := exists_ok_of_map returns
  have free : transducer.Called 3 [1] [] (.leaveFree 0) ⟨_, 1⟩ := .leaveFree .start rfl
  have arc := (free.followFree start).flag input (by decide) isFlag accepted
  have reached : transducer.Reached 3 [1] [0] _ := .called (arc.visit target)
  obtain ⟨-, undone, -, written⟩ := run_undone_of_reached loaded reached
  refine ⟨transducer, _, after, loaded, reached, ?_, returned, size, undone _ after returned⟩
  rw [written, List.map_singleton, output]

end Transducer

end OptimizedLookup
