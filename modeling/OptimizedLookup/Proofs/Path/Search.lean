import OptimizedLookup.Proofs.Path.Listing
import OptimizedLookup.Proofs.Tape

/-! The search and the listing agree. The search keeps one context and undoes what it did when it
comes back, so the context always describes the path the search is on; what it finds from there is
what the listing has, and it gives up exactly where the listing overruns. -/
namespace OptimizedLookup

namespace Context

/-- What every part of the search leaves as it was: all but the output cells from the cursor on and
the analyses. -/
structure Restored (before after : Context) : Prop where
  input : after.input = before.input
  flags : after.flags = before.flags
  weight : after.weight = before.weight
  cursor : after.output.cursor = before.output.cursor
  written : ∀ position < before.output.cursor,
    after.output.cell position = before.output.cell position

theorem Restored.refl (context : Context) : context.Restored context :=
  ⟨rfl, rfl, rfl, rfl, fun _ _ => rfl⟩

theorem Restored.trans {first second third : Context} (left : first.Restored second)
    (right : second.Restored third) : first.Restored third where
  input := right.input.trans left.input
  flags := right.flags.trans left.flags
  weight := right.weight.trans left.weight
  cursor := right.cursor.trans left.cursor
  written position lt :=
    (right.written position (left.cursor ▸ lt)).trans (left.written position lt)

/-- The context describes a path on the tokens: what it has left to consume, what its records
print and weigh, and its flags. -/
structure At (context : Context) (transducer : Transducer) (tokens : List Symbol)
    (path : List Nat) (point : Point) : Prop where
  input : ∀ position, context.input.cell position = tokens[position]?
  rest : point.rest = tokens.drop context.input.cursor
  cursor : context.output.cursor = path.length
  output : ∀ position < path.length,
    context.output.cell position = ((path.map transducer.transitions.output?)[position]?).join
  flags : context.flags = point.flags
  weight : context.weight = transducer.weightOf path

section At

variable {context : Context} {transducer : Transducer} {tokens : List Symbol} {path : List Nat}
  {point : Point}

theorem At.restored (standing : context.At transducer tokens path point) {after : Context}
    (restored : context.Restored after) : after.At transducer tokens path point where
  input := restored.input ▸ standing.input
  rest := restored.input ▸ standing.rest
  cursor := restored.cursor.trans standing.cursor
  output position lt :=
    (restored.written position (standing.cursor ▸ lt)).trans (standing.output position lt)
  flags := restored.flags.trans standing.flags
  weight := restored.weight.trans standing.weight

theorem At.next (standing : context.At transducer tokens path point) :
    context.input.cell context.input.cursor = point.rest.head? := by
  rw [standing.input, standing.rest, List.head?_drop]

theorem At.consumed (standing : context.At transducer tokens path point) {token : Symbol}
    {rest : List Symbol} (onward : point.rest = token :: rest) :
    (context.input.advance 1).get (-1) = some token := by
  rw [Tape.get_advance, standing.next, onward, List.head?_cons]

theorem At.passing (standing : context.At transducer tokens path point) (flags : Flag.Stack) :
    { context with flags := flags }.At transducer tokens path { point with flags := flags } where
  input := standing.input
  rest := standing.rest
  cursor := standing.cursor
  output := standing.output
  flags := rfl
  weight := standing.weight

theorem At.consuming (standing : context.At transducer tokens path point) :
    { context with input := context.input.advance 1 }.At transducer tokens path
      { point with rest := point.rest.tail } where
  input := standing.input
  rest := by simp [standing.rest, Tape.advance]
  cursor := standing.cursor
  output := standing.output
  flags := standing.flags
  weight := standing.weight

def behind (transducer : Transducer) (record : Nat) (context : Context) : Context :=
  { context with
    output := (context.output.put (transducer.transitions.output? record) 0).advance 1
    weight := context.weight.add ((transducer.transitions.weight? record).getD .zero).widen }

@[simp] theorem cursor_behind (record : Nat) :
    (behind transducer record context).output.cursor = context.output.cursor + 1 := by
  simp [behind, Tape.advance]

theorem cell_behind (record position : Nat) :
    (behind transducer record context).output.cell position =
      if position = context.output.cursor then transducer.transitions.output? record
      else context.output.cell position := by
  simp [behind, Tape.cell_put_zero]

theorem At.behind (standing : context.At transducer tokens path point) (record : Nat)
    (address : UInt32) :
    (behind transducer record context).At transducer tokens (path ++ [record])
      { point with address := address } where
  input := standing.input
  rest := standing.rest
  cursor := by simp [standing.cursor]
  output position lt := by
    rw [cell_behind, standing.cursor, List.map_append, List.getElem?_append, List.length_map]
    by_cases last : position = path.length
    · simp [last]
    · have before : position < path.length := by
        simp only [List.length_append, List.length_singleton] at lt
        omega
      rw [if_neg last, if_pos before]
      exact standing.output position before
  flags := standing.flags
  weight := by rw [Transducer.weightOf_concat, ← standing.weight]; rfl

theorem At.note_found (standing : context.At transducer tokens path point) (final : ArcWeight) :
    (context.note transducer.alphabet final).found.toList =
      context.found.toList ++ [transducer.analysisOf path final] := by
  have prints : (context.output.put none 0).symbols = transducer.outputOf path := by
    apply Tape.symbols_of_cells
    · intro position lt
      rw [List.length_map] at lt
      rw [Tape.cell_put_zero, standing.cursor, if_neg (Nat.ne_of_lt lt)]
      exact standing.output position lt
    · rw [Tape.cell_put_zero, List.length_map, standing.cursor, if_pos rfl]
  simp [note, prints, standing.weight, Transducer.analysisOf]

end At

theorem Restored.unset (context : Context) :
    context.Restored { context with output := context.output.put none 0 } where
  input := rfl
  flags := rfl
  weight := rfl
  cursor := by simp
  written position lt := by rw [Tape.cell_put_zero, if_neg (Nat.ne_of_lt lt)]

theorem Restored.pop {context after : Context} {operation : Flag.Operation} {flags : Flag.Stack}
    (accepted : context.flags.push? operation = some flags)
    (restored : { context with flags := flags }.Restored after) :
    context.Restored { after with flags := after.flags.pop } where
  input := restored.input
  flags := by rw [restored.flags, Flag.Stack.pop_of_push? accepted]
  weight := restored.weight
  cursor := restored.cursor
  written := restored.written

end Context

namespace Transducer

/-- A part of the search gives up, or it restores the context and adds the analyses. -/
def Finds (limit : Nat) (before : Context) (overrun : Bool) (analyses : List Analysis)
    (result : Except DepthExceeded Context) : Prop :=
  if overrun then result = .error ⟨limit⟩
  else ∃ after, result = .ok after ∧ before.Restored after ∧
    after.found.toList = before.found.toList ++ analyses

section Finds

variable {limit : Nat} {before : Context} {result : Except DepthExceeded Context}

theorem finds_nothing (context : Context) : Finds limit context false [] (.ok context) :=
  ⟨context, rfl, .refl context, (List.append_nil _).symm⟩

theorem Finds.bind {overrun overruns : Bool} {analyses more : List Analysis}
    {next : Context → Except DepthExceeded Context}
    (first : Finds limit before overrun analyses result)
    (second : ∀ after, before.Restored after → Finds limit after overruns more (next after)) :
    Finds limit before (overrun || overruns) (analyses ++ more) (result >>= next) := by
  unfold Finds at first ⊢
  cases overrun with
  | true =>
    cases first
    rfl
  | false =>
    obtain ⟨middle, rfl, restored, found⟩ := first
    have rest := second middle restored
    unfold Finds at rest
    cases overruns with
    | true => exact rest
    | false =>
      obtain ⟨after, same, again, foundMore⟩ := rest
      exact ⟨after, same, restored.trans again, by rw [foundMore, found, List.append_assoc]⟩

theorem Finds.around {inner : Context} {overrun : Bool} {analyses : List Analysis}
    {undo : Context → Context} (inside : Finds limit inner overrun analyses result)
    (sameFound : inner.found = before.found)
    (keepsFound : ∀ after, (undo after).found = after.found)
    (undoes : ∀ after, inner.Restored after → before.Restored (undo after)) :
    Finds limit before overrun analyses (result >>= fun after => .ok (undo after)) := by
  unfold Finds at inside ⊢
  cases overrun with
  | true =>
    cases inside
    rfl
  | false =>
    obtain ⟨after, rfl, restored, found⟩ := inside
    exact ⟨undo after, rfl, undoes after restored, by rw [keepsFound, found, sameFound]⟩

end Finds

def branches (transducer : Transducer) (level : Nat) (steps : List (Nat × Point)) :
    List (List Nat × ArcWeight) :=
  steps.flatMap fun (record, next) =>
    (transducer.listing level next).map fun (path, final) => (record :: path, final)

theorem branches_append (transducer : Transducer) (level : Nat) (steps more : List (Nat × Point)) :
    transducer.branches level (steps ++ more) =
      transducer.branches level steps ++ transducer.branches level more :=
  List.flatMap_append

def analysesFrom (transducer : Transducer) (path : List Nat)
    (ways : List (List Nat × ArcWeight)) : List Analysis :=
  ways.map fun (more, final) => transducer.analysisOf (path ++ more) final

theorem analysesFrom_append (transducer : Transducer) (path : List Nat)
    (left right : List (List Nat × ArcWeight)) :
    transducer.analysesFrom path (left ++ right) =
      transducer.analysesFrom path left ++ transducer.analysesFrom path right :=
  List.map_append

def Takes (transducer : Transducer) (limit level : Nat) (path : List Nat)
    (steps : List (Nat × Point)) (before : Context)
    (result : Except DepthExceeded Context) : Prop :=
  Finds limit before (steps.any fun (_, next) => transducer.overruns level next)
    (transducer.analysesFrom path (transducer.branches level steps)) result

section Search

variable {transducer : Transducer} {limit level : Nat} {tokens : List Symbol} {path : List Nat}
  {point : Point} {context : Context}

theorem takes_nothing : transducer.Takes limit level path [] context (.ok context) :=
  finds_nothing context

theorem Takes.append {steps more : List (Nat × Point)}
    {result : Except DepthExceeded Context} {next : Context → Except DepthExceeded Context}
    (first : transducer.Takes limit level path steps context result)
    (second : ∀ after, context.Restored after →
      transducer.Takes limit level path more after (next after)) :
    transducer.Takes limit level path (steps ++ more) context (result >>= next) := by
  unfold Takes
  rw [List.any_append, branches_append, analysesFrom_append]
  exact Finds.bind first second

def Agrees (transducer : Transducer) (limit level : Nat) (tokens : List Symbol) : Prop :=
  ∀ path point context, context.At transducer tokens path point →
    Finds limit context (transducer.overruns level point)
      (transducer.analysesFrom path (transducer.listing level point))
      (transducer.visit limit level (.ofTarget point.address) context)

theorem follow_takes (agrees : transducer.Agrees limit level tokens)
    (standing : context.At transducer tokens path point) (record : Nat) :
    transducer.Takes limit level path (transducer.arrive? point record).toList context
      (transducer.follow (transducer.visit limit level) record context) := by
  unfold follow arrive?
  cases transducer.transitions.target? record with
  | none => exact takes_nothing
  | some address =>
    have inside := agrees _ _ _ (standing.behind record address)
    have deeper : transducer.analysesFrom path (transducer.branches level
        [(record, { point with address := address })]) =
        transducer.analysesFrom (path ++ [record])
          (transducer.listing level { point with address := address }) := by
      simp [analysesFrom, branches, Function.comp_def]
    simp only [Option.map_some, Option.toList_some, Takes, List.any_cons, List.any_nil,
      Bool.or_false, deeper]
    refine inside.around rfl (fun _ => rfl) ?_
    intro after restored
    refine ⟨restored.input, restored.flags, rfl, ?_, ?_⟩
    · simp [Tape.retreat, restored.cursor]
    · intro position lt
      have before := restored.written position (by rw [Context.cursor_behind]; omega)
      rw [Context.cell_behind, if_neg (Nat.ne_of_lt lt)] at before
      exact before

private theorem filterMap_cons_toList {α β : Type} (f : α → Option β) (first : α)
    (rest : List α) : (first :: rest).filterMap f = (f first).toList ++ rest.filterMap f := by
  rw [List.filterMap_cons]
  cases f first <;> rfl

theorem freeStep?_of_pass? {symbol : Symbol} {record : Nat}
    (input : transducer.transitions.input? record = some symbol) :
    transducer.freeStep? point record =
      (transducer.pass? point.flags symbol).bind fun flags =>
        transducer.arrive? { point with flags := flags } record := by
  rw [freeStep?, input]
  rfl

theorem follow_takes_flag (agrees : transducer.Agrees limit level tokens)
    (standing : context.At transducer tokens path point) {operation : Flag.Operation}
    {flags : Flag.Stack} (accepted : point.flags.push? operation = some flags) (record : Nat) :
    transducer.Takes limit level path
      (transducer.arrive? { point with flags := flags } record).toList context
      (transducer.follow (transducer.visit limit level) record { context with flags := flags } >>=
        fun after => .ok { after with flags := after.flags.pop }) := by
  refine Finds.around (follow_takes agrees (standing.passing flags) record) rfl (fun _ => rfl) ?_
  exact fun after restored => restored.pop (standing.flags ▸ accepted)

theorem followFree_takes (agrees : transducer.Agrees limit level tokens) (count record : Nat)
    (standing : context.At transducer tokens path point) :
    transducer.Takes limit level path
      (((List.range' record count).takeWhile transducer.consumesNothing).filterMap
        (transducer.freeStep? point)) context
      (transducer.followFree (transducer.visit limit level) count record context) := by
  induction count generalizing record context with
  | zero => exact takes_nothing
  | succ count ih =>
    have later (after : Context) (restored : context.Restored after) :=
      ih (record + 1) (standing.restored restored)
    rw [List.range'_succ, followFree]
    cases input : transducer.transitions.input? record with
    | none =>
      rw [List.takeWhile_cons_of_neg (by simp [consumesNothing, input])]
      exact takes_nothing
    | some symbol =>
      by_cases zero : symbol = 0
      · have passed : transducer.pass? point.flags symbol = some point.flags := if_pos zero
        rw [List.takeWhile_cons_of_pos (by simp [consumesNothing, input, zero]),
          filterMap_cons_toList, freeStep?_of_pass? input, passed]
        simp only [zero, if_true]
        exact (follow_takes agrees standing record).append later
      · cases flag : transducer.alphabet.operation? symbol with
        | none =>
          rw [List.takeWhile_cons_of_neg
            (by simp [consumesNothing, input, zero, Alphabet.isFlag, flag])]
          simp only [zero, if_false, flag]
          exact takes_nothing
        | some operation =>
          rw [List.takeWhile_cons_of_pos
              (by simp [consumesNothing, input, Alphabet.isFlag, flag]),
            filterMap_cons_toList, freeStep?_of_pass? input, pass?, if_neg zero, flag]
          simp only [zero, if_false, flag, Option.bind_some, standing.flags]
          cases accepted : point.flags.push? operation with
          | none => exact later context (.refl context)
          | some flags =>
            have both := (follow_takes_flag agrees standing accepted record).append later
            rw [bind_assoc] at both
            exact both

theorem followMatching_takes (agrees : transducer.Agrees limit level tokens) (token : Symbol)
    (count record : Nat) (standing : context.At transducer tokens path point) :
    transducer.Takes limit level path
      (((List.range' record count).takeWhile (transducer.hasInput token)).filterMap
        (transducer.arrive? point)) context
      (transducer.followMatching (transducer.visit limit level) token count record context) := by
  induction count generalizing record context with
  | zero => exact takes_nothing
  | succ count ih =>
    rw [List.range'_succ, followMatching]
    by_cases input : transducer.transitions.input? record = some token
    · rw [List.takeWhile_cons_of_pos (hasInput_iff.mpr input), filterMap_cons_toList, if_pos input]
      exact (follow_takes agrees standing record).append fun after restored =>
        ih (record + 1) (standing.restored restored)
    · rw [List.takeWhile_cons_of_neg fun found => input (hasInput_iff.mp found), if_neg input]
      exact takes_nothing

theorem leaveFree_takes (agrees : transducer.Agrees limit level tokens)
    (standing : context.At transducer tokens path point) :
    transducer.Takes limit level path
      ((transducer.freeArcs point).filterMap (transducer.freeStep? point)) context
      (transducer.leaveFree (transducer.visit limit level) (.ofTarget point.address) context) := by
  unfold freeArcs leaveFree
  cases transducer.freeStart? (.ofTarget point.address) with
  | none => exact takes_nothing
  | some first => exact followFree_takes agrees _ first standing

theorem leaveMatching_takes (agrees : transducer.Agrees limit level tokens)
    (standing : context.At transducer tokens path point) {token : Symbol} {rest : List Symbol}
    (onward : point.rest = token :: rest) :
    transducer.Takes limit level path
      ((transducer.tokenArcs point).filterMap (transducer.tokenStep? point))
      { context with input := context.input.advance 1 }
      (transducer.leaveMatching (transducer.visit limit level) (.ofTarget point.address)
        { context with input := context.input.advance 1 }) := by
  simp only [tokenArcs, onward, leaveMatching, standing.consumed onward]
  cases transducer.runStart? (.ofTarget point.address) token with
  | none => exact takes_nothing
  | some first => exact followMatching_takes agrees token _ first standing.consuming

theorem finish_finds (agrees : transducer.Agrees limit level tokens)
    (standing : context.At transducer tokens path point) :
    Finds limit context
      (((transducer.tokenArcs point).filterMap (transducer.tokenStep? point)).any
        fun (_, next) => transducer.overruns level next)
      (transducer.analysesFrom path (transducer.branches level
          ((transducer.tokenArcs point).filterMap (transducer.tokenStep? point)) ++
        transducer.ending point))
      (match context.input.get 0 with
      | none =>
        match transducer.finalWeight? (.ofTarget point.address) with
        | none => return context
        | some weight => return context.note transducer.alphabet weight
      | some _ => do
        let consumed := { context with input := context.input.advance 1 }
        let after ← transducer.leaveMatching (transducer.visit limit level)
          (.ofTarget point.address) consumed
        return { after with
          input := after.input.retreat 1
          output := after.output.put none 0 }) := by
  rw [Tape.get_zero, standing.next]
  cases onward : point.rest with
  | nil =>
    simp only [List.head?_nil, tokenArcs, ending, onward, List.filterMap_nil, List.any_nil]
    cases transducer.finalWeight? (.ofTarget point.address) with
    | none => exact finds_nothing context
    | some final =>
      refine ⟨_, rfl, ⟨rfl, rfl, rfl, ?_, ?_⟩, ?_⟩
      · exact (Context.Restored.unset context).cursor
      · exact (Context.Restored.unset context).written
      · rw [standing.note_found]
        simp [analysesFrom, branches]
  | cons token rest =>
    simp only [List.head?_cons, ending, onward, List.append_nil]
    refine Finds.around (leaveMatching_takes agrees standing onward) rfl (fun _ => rfl) ?_
    intro after restored
    have unset := Context.Restored.unset after
    refine ⟨?_, restored.flags, restored.weight, ?_, ?_⟩
    · simp [restored.input]
    · exact unset.cursor.trans restored.cursor
    · intro position lt
      exact (unset.written position (restored.cursor ▸ lt)).trans (restored.written position lt)

theorem visit_agrees (transducer : Transducer) (limit level : Nat) (tokens : List Symbol) :
    transducer.Agrees limit level tokens := by
  -- a visit at one level searches with visits at the level below
  induction level with
  | zero => exact fun _ _ _ _ => rfl
  | succ level agrees =>
    intro path point context standing
    have free := leaveFree_takes agrees standing
    have both := Finds.bind free fun after restored =>
      finish_finds agrees (standing.restored restored)
    rw [← analysesFrom_append, ← List.append_assoc, ← branches_append, ← List.any_append] at both
    exact both

theorem at_ofSymbols (transducer : Transducer) (tokens : List Symbol) :
    (Context.ofSymbols tokens transducer.alphabet.featureCount).At transducer tokens []
      (transducer.origin tokens) where
  input := Tape.cell_ofSymbols tokens
  rest := rfl
  cursor := by simp [Context.ofSymbols]
  output := nofun
  flags := rfl
  weight := rfl

theorem search_eq (transducer : Transducer) (limit : Nat) (tokens : List Symbol) :
    transducer.search limit tokens =
      if transducer.overruns limit (transducer.origin tokens) then .error ⟨limit⟩
      else .ok ((transducer.listing limit (transducer.origin tokens)).map fun (path, final) =>
        transducer.analysisOf path final) := by
  have found := transducer.visit_agrees limit limit tokens [] _ _ (transducer.at_ofSymbols tokens)
  unfold Finds at found
  unfold search
  change (transducer.visit limit limit State.start _ >>= _) = _
  rw [show State.start = .ofTarget (transducer.origin tokens).address from rfl]
  split
  · next overrun =>
    rw [if_pos overrun] at found
    rw [found]
    rfl
  · next fits =>
    rw [if_neg fits] at found
    obtain ⟨after, same, -, analyses⟩ := found
    rw [same]
    exact congrArg Except.ok analyses

end Search

end Transducer

end OptimizedLookup
