import OptimizedLookup.Proofs.Loading.Verdict
import OptimizedLookup.Proofs.Path.Watched

/-! The search does nothing that it must not do. In a table of less than 2147483648 records the
search under watch is never stopped by what is watched for, wherever the targets point, and it finds
what the search finds that is not watched. -/
namespace OptimizedLookup

namespace Watched

def report (depth : Nat) : Except DepthExceeded Context → Except Stop Watched
  | .ok context => .ok ⟨context, depth⟩
  | .error error => .error (.exceeded error)

theorem report_bind {result : Except DepthExceeded Context} {depth outer : Nat}
    {next : Context → Except DepthExceeded Context} {watchedNext : Watched → Except Stop Watched}
    (same : ∀ after, result = .ok after → watchedNext ⟨after, depth⟩ = report outer (next after)) :
    (report depth result >>= watchedNext) = report outer (result >>= next) := by
  cases result with
  | error error => rfl
  | ok after => exact same after rfl

theorem ok_bind {α β : Type} (value : α) (next : α → Except Stop β) :
    (Except.ok value >>= next) = next value :=
  rfl

theorem map_recordAt? (index : IndexTable) (slot : Nat) :
    ((index.target? slot).bind recordAt?).map UInt32.toNat = index.runStart? slot := by
  rw [IndexTable.runStart?, Option.map_bind]
  congr 1
  funext target
  rw [Function.comp_apply, recordAt?]
  by_cases far : transitionBase ≤ target
  · rw [if_pos far, if_pos far, Option.map_some, UInt32.toNat_sub_of_le _ _ far]
  · rw [if_neg far, if_neg far, Option.map_none]

theorem exists_runStart? (transducer : Transducer) (address : UInt32) (symbol : Symbol) :
    ∃ first, runStart? transducer address symbol = .ok first ∧
      first.map UInt32.toNat = transducer.runStart? (.ofTarget address) symbol := by
  have base : transitionBase.toNat = 0x80000000 := rfl
  have one : (1 : UInt32).toNat = 1 := rfl
  have below := address.toNat_lt
  unfold runStart? State.ofTarget
  by_cases within : transitionBase ≤ address
  · obtain ⟨index, minusIs, indexIs⟩ := exists_minus within
    obtain ⟨first, plusIs, firstIs⟩ : ∃ first, plus index 1 = .ok first ∧ _ :=
      exists_plus (by omega)
    rw [if_pos within, if_pos within, minusIs, ok_bind, plusIs, ok_bind]
    refine ⟨some first, rfl, ?_⟩
    rw [Option.map_some, firstIs, indexIs]
    rfl
  · have less : address.toNat < 0x80000000 := UInt32.lt_iff_toNat_lt.mp (UInt32.not_le.mp within)
    have small := symbol.toNat_lt
    have wide : symbol.toUInt32.toNat = symbol.toNat := UInt16.toNat_toUInt32 symbol
    obtain ⟨next, nextPlus, nextIs⟩ : ∃ next, plus address 1 = .ok next ∧ _ :=
      exists_plus (by omega)
    obtain ⟨slot, slotPlus, slotIs⟩ : ∃ slot, plus next symbol.toUInt32 = .ok slot ∧ _ :=
      exists_plus (by omega)
    have place : slot.toNat = address.toNat + 1 + symbol.toNat := by omega
    rw [if_neg within, if_neg within, nextPlus, ok_bind, slotPlus, ok_bind, place,
      Transducer.runStart?]
    by_cases own : transducer.index.input? (address.toNat + 1 + symbol.toNat) = some symbol
    · rw [if_pos own, if_pos own]
      exact ⟨_, rfl, map_recordAt? transducer.index _⟩
    · rw [if_neg own, if_neg own]
      exact ⟨none, rfl, rfl⟩

theorem runStart_of_runStart? {transducer : Transducer} {address first : UInt32} {symbol : Symbol}
    (start : runStart? transducer address symbol = .ok (some first)) :
    transducer.RunStart symbol address first.toNat := by
  obtain ⟨other, same, isStart⟩ := exists_runStart? transducer address symbol
  rw [start] at same
  cases same
  exact Transducer.runStart?_eq_some_iff.mp isStart.symm

end Watched

namespace Transducer

theorem Finds.of_ok {limit : Nat} {before after : Context} {overrun : Bool}
    {analyses : List Analysis} (finds : Finds limit before overrun analyses (.ok after)) :
    before.Restored after ∧ after.found.toList = before.found.toList ++ analyses := by
  unfold Finds at finds
  cases overrun with
  | true =>
    rw [if_pos rfl] at finds
    contradiction
  | false =>
    obtain ⟨other, same, both⟩ := finds
    cases same
    exact both

theorem Finds.restored {limit : Nat} {before after : Context} {overrun : Bool}
    {analyses : List Analysis} {result : Except DepthExceeded Context}
    (finds : Finds limit before overrun analyses result) (found : result = .ok after) :
    before.Restored after := by
  rw [found] at finds
  exact finds.of_ok.1

end Transducer

namespace Watched

section Search

variable {transducer : Transducer} {limit level depth : Nat} {tokens : List Symbol}
  {path : List Nat} {point : Point} {context : Context}

def Agrees (transducer : Transducer) (limit level : Nat) (tokens : List Symbol) : Prop :=
  ∀ path point context depth, context.At transducer tokens path point → depth + level = limit →
    visit transducer limit tokens.length (level + 1) point.address ⟨context, depth⟩ =
      report depth (transducer.visit limit level (.ofTarget point.address) context)

theorem follow_eq_report (agrees : Agrees transducer limit level tokens)
    (standing : context.At transducer tokens path point) (left : depth + level = limit)
    (record : UInt32) :
    follow transducer (visit transducer limit tokens.length (level + 1)) record ⟨context, depth⟩ =
      report depth (transducer.follow (transducer.visit limit level) record.toNat context) := by
  unfold follow Transducer.follow
  cases transducer.transitions.target? record.toNat with
  | none => rfl
  | some address =>
    have behind := standing.behind record.toNat address
    have inside := agrees _ _ _ _ behind left
    change (visit _ _ _ _ address ⟨_, depth⟩ >>= _) = _
    rw [inside]
    refine report_bind fun after ran => ?_
    have restored := (transducer.visit_agrees limit level tokens _ _ _ behind).restored ran
    have moved : 1 ≤ after.output.cursor := by
      rw [restored.cursor, Context.cursor_behind]
      exact Nat.le_add_left 1 _
    change (retreat after.output >>= _) = _
    rw [retreat_eq_ok moved]
    rfl

theorem exists_next {record : UInt32} {symbol : Symbol}
    (small : transducer.transitions.size < 0x80000000)
    (input : transducer.transitions.input? record.toNat = some symbol) :
    ∃ next, plus record 1 = .ok next ∧ next.toNat = record.toNat + 1 ∧
      transducer.transitions.size - record.toNat =
        transducer.transitions.size - next.toNat + 1 := by
  have inside := Transducer.lt_size_of_input? input
  have one : (1 : UInt32).toNat = 1 := rfl
  obtain ⟨next, plusIs, nextIs⟩ : ∃ next, plus record 1 = .ok next ∧ _ :=
    exists_plus (by omega)
  exact ⟨next, plusIs, nextIs, by omega⟩

theorem followFree_eq_report (agrees : Agrees transducer limit level tokens)
    (small : transducer.transitions.size < 0x80000000)
    (standing : context.At transducer tokens path point) (left : depth + level = limit)
    {count : Nat} {record : UInt32} (enough : transducer.transitions.size - record.toNat < count) :
    followFree transducer (visit transducer limit tokens.length (level + 1)) count record
        ⟨context, depth⟩ =
      report depth (transducer.followFree (transducer.visit limit level)
        (transducer.transitions.size - record.toNat) record.toNat context) := by
  have agreesBelow := transducer.visit_agrees limit level tokens
  -- there is one more record that may be looked at than there are records left in the table
  induction count generalizing record context with
  | zero => contradiction
  | succ count ih =>
    rw [followFree]
    cases input : transducer.transitions.input? record.toNat with
    | none =>
      cases transducer.transitions.size - record.toNat with
      | zero => rfl
      | succ more =>
        rw [Transducer.followFree, input]
        rfl
    | some symbol =>
      obtain ⟨next, plusIs, nextIs, fewer⟩ := exists_next small input
      rw [fewer, Transducer.followFree, input, ← nextIs]
      have enoughNext : transducer.transitions.size - next.toNat < count := by omega
      have later (after : Context) (restored : context.Restored after) :=
        ih (standing.restored restored) enoughNext
      dsimp only
      by_cases zero : symbol = 0
      · rw [if_pos zero, if_pos zero, follow_eq_report agrees standing left]
        refine report_bind fun after ran => ?_
        rw [plusIs]
        exact later after
          ((Transducer.follow_takes agreesBelow standing record.toNat).restored ran)
      · rw [if_neg zero, if_neg zero]
        cases transducer.alphabet.operation? symbol with
        | none => rfl
        | some operation =>
          dsimp only
          cases accepted : context.flags.push? operation with
          | none =>
            dsimp only
            rw [plusIs]
            exact later context (.refl context)
          | some flags =>
            dsimp only
            rw [follow_eq_report agrees (standing.passing flags) left]
            refine report_bind fun after ran => ?_
            rw [plusIs]
            have passed : point.flags.push? operation = some flags := standing.flags ▸ accepted
            have undone := Transducer.follow_takes_flag agreesBelow standing passed record.toNat
            rw [ran] at undone
            exact later _ (undone.restored rfl)

theorem followMatching_eq_report (agrees : Agrees transducer limit level tokens)
    (small : transducer.transitions.size < 0x80000000)
    (standing : context.At transducer tokens path point) (left : depth + level = limit)
    (token : Symbol) {count : Nat} {record : UInt32}
    (enough : transducer.transitions.size - record.toNat < count) :
    followMatching transducer (visit transducer limit tokens.length (level + 1)) token count record
        ⟨context, depth⟩ =
      report depth (transducer.followMatching (transducer.visit limit level) token
        (transducer.transitions.size - record.toNat) record.toNat context) := by
  have agreesBelow := transducer.visit_agrees limit level tokens
  induction count generalizing record context with
  | zero => contradiction
  | succ count ih =>
    rw [followMatching]
    by_cases input : transducer.transitions.input? record.toNat = some token
    · obtain ⟨next, plusIs, nextIs, fewer⟩ := exists_next small input
      rw [fewer, Transducer.followMatching, if_pos input, if_pos input, ← nextIs,
        follow_eq_report agrees standing left]
      refine report_bind fun after ran => ?_
      rw [plusIs]
      have restored := (Transducer.follow_takes agreesBelow standing record.toNat).restored ran
      exact ih (standing.restored restored) (by omega)
    · rw [if_neg input]
      cases transducer.transitions.size - record.toNat with
      | zero => rfl
      | succ more =>
        rw [Transducer.followMatching, if_neg input]
        rfl

theorem leaveFree_eq_report (agrees : Agrees transducer limit level tokens)
    (small : transducer.transitions.size < 0x80000000)
    (standing : context.At transducer tokens path point) (left : depth + level = limit) :
    leaveFree transducer (visit transducer limit tokens.length (level + 1)) point.address
        ⟨context, depth⟩ =
      report depth
        (transducer.leaveFree (transducer.visit limit level) (.ofTarget point.address) context) := by
  obtain ⟨first, startIs, same⟩ := exists_runStart? transducer point.address 0
  rw [leaveFree, startIs, Transducer.leaveFree, Transducer.freeStart?, ← same]
  cases first with
  | none => rfl
  | some first => exact followFree_eq_report agrees small standing left (by omega)

theorem leaveMatching_eq_report_of_get (agrees : Agrees transducer limit level tokens)
    (small : transducer.transitions.size < 0x80000000)
    (standing : context.At transducer tokens path point) (left : depth + level = limit)
    {token : Symbol} (behind : context.input.get (-1) = some token) :
    leaveMatching transducer (visit transducer limit tokens.length (level + 1)) point.address token
        ⟨context, depth⟩ =
      report depth (transducer.leaveMatching (transducer.visit limit level)
        (.ofTarget point.address) context) := by
  obtain ⟨first, startIs, same⟩ := exists_runStart? transducer point.address token
  rw [leaveMatching, ensure_of behind, Transducer.leaveMatching, behind]
  dsimp only
  change (runStart? transducer point.address token >>= _) = _
  rw [startIs, ← same]
  cases first with
  | none => rfl
  | some first => exact followMatching_eq_report agrees small standing left token (by omega)

theorem leaveMatching_eq_report (agrees : Agrees transducer limit level tokens)
    (small : transducer.transitions.size < 0x80000000)
    (standing : context.At transducer tokens path point) (left : depth + level = limit)
    {token : Symbol} {rest : List Symbol} (onward : point.rest = token :: rest) :
    let consumed := { context with input := context.input.advance 1 }
    leaveMatching transducer (visit transducer limit tokens.length (level + 1)) point.address token
        ⟨consumed, depth⟩ =
      report depth (transducer.leaveMatching (transducer.visit limit level)
        (.ofTarget point.address) consumed) :=
  leaveMatching_eq_report_of_get agrees small standing.consuming left (standing.consumed onward)

theorem visit_agrees (small : transducer.transitions.size < 0x80000000) (limit level : Nat)
    (tokens : List Symbol) : Agrees transducer limit level tokens := by
  -- the visits that are left are as many as the limit allows beyond those counted
  induction level with
  | zero =>
    intro path point context depth standing left
    have reached : limit ≤ depth := Nat.le_of_eq left.symm
    exact if_pos reached
  | succ level ih =>
    intro path point context depth standing left
    have leftInside : depth + 1 + level = limit := by omega
    have within : depth < limit := by omega
    rw [visit, if_neg (Nat.not_le.mpr within), enter_eq_ok within]
    change (leaveFree _ _ _ ⟨context, depth + 1⟩ >>= _) = _
    rw [leaveFree_eq_report ih small standing leftInside]
    refine report_bind fun after ran => ?_
    have free := Transducer.leaveFree_takes (transducer.visit_agrees limit level tokens) standing
    have standingAfter := standing.restored (free.restored ran)
    dsimp only
    rw [Tape.get_zero, standingAfter.next]
    cases onward : point.rest with
    | nil =>
      cases transducer.finalWeight? (.ofTarget point.address) with
      | none => exact leave_eq_ok after depth
      | some weight => exact leave_eq_ok (after.note transducer.alphabet weight) depth
    | cons token rest =>
      have ahead : (after.input.advance 1).cursor ≤ tokens.length := by
        have unread := congrArg List.length (standingAfter.rest.symm.trans onward)
        rw [List.length_drop, List.length_cons] at unread
        change after.input.cursor + 1 ≤ _
        omega
      change (consume tokens.length ⟨after, depth + 1⟩ >>= _) = _
      rw [consume_eq_ok ahead]
      change (leaveMatching _ _ _ token ⟨_, depth + 1⟩ >>= _) = _
      rw [leaveMatching_eq_report ih small standingAfter leftInside onward]
      refine report_bind fun last ranLast => ?_
      have restored := (Transducer.leaveMatching_takes
        (transducer.visit_agrees limit level tokens) standingAfter onward).restored ranLast
      have moved : 1 ≤ last.input.cursor := by
        rw [restored.input]
        exact Nat.le_add_left 1 _
      change (retreat last.input >>= _) = _
      rw [retreat_eq_ok moved]
      exact leave_eq_ok _ depth

end Search

end Watched

namespace Layout

end Layout

namespace Transducer

variable {source : Source} {transducer : Transducer}

theorem size_lt_of_load (loaded : load source = .ok transducer) :
    transducer.transitions.size < 0x80000000 := by
  obtain ⟨_, -, _, _, _, _, -, spells, -, -, -, length, same⟩ := load_eq_ok_iff.mp loaded
  obtain ⟨_, _, -, -, -, -, -, flawless⟩ := Layout.exists_of_spellsHeader spells
  rw [same, (TransitionTable.decodes_decode length).size]
  exact UInt32.lt_iff_toNat_lt.mp (Layout.defect?_eq_none_iff.mp flawless).2.2

end Transducer

end OptimizedLookup
