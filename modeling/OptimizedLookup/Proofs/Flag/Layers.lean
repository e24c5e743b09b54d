import OptimizedLookup.Proofs.Flag.Environment

/-! The layers of flag states under any moves, also with flags of no alphabet. A push puts one layer
on top that differs from the one below it in its own feature only, and what pushes and pops do above
a layer never reaches it, so that moves which take off what they put on leave no trace. -/
namespace OptimizedLookup.Flag

theorem Operation.outcome?_cases {operation : Operation} {current next : Int16}
    (accepted : operation.outcome? current = some next) :
    next = current ∨ next = 0 ∨ next = operation.valueNumber ∨ next = -operation.valueNumber := by
  unfold outcome? at accepted
  cases operator : operation.operator with
  | positiveSet =>
    rw [operator] at accepted
    exact .inr (.inr (.inl (Option.some.inj accepted).symm))
  | negativeSet =>
    rw [operator] at accepted
    exact .inr (.inr (.inr (Option.some.inj accepted).symm))
  | require =>
    rw [operator] at accepted
    exact .inl (Option.some.inj (Option.ite_none_right_eq_some.mp accepted).2).symm
  | disallow =>
    rw [operator] at accepted
    exact .inl (Option.some.inj (Option.ite_none_right_eq_some.mp accepted).2).symm
  | clear =>
    rw [operator] at accepted
    exact .inr (.inl (Option.some.inj accepted).symm)
  | unification =>
    rw [operator] at accepted
    exact .inr (.inr (.inl (Option.some.inj (Option.ite_none_right_eq_some.mp accepted).2).symm))

theorem toInt_neg_of_ne_minValue {value : Int16} (proper : value ≠ Int16.minValue) :
    (-value).toInt = -value.toInt := by
  have least := value.le_toInt
  have greatest := value.toInt_lt
  have other : value.toInt ≠ -32768 := fun same => proper (Int16.toInt_inj.mp same)
  rw [Int16.toInt_neg]
  exact Int.bmod_eq_of_le (by omega) (by omega)

theorem neg_ne_minValue {value : Int16} (proper : value ≠ Int16.minValue) :
    -value ≠ Int16.minValue := by
  intro same
  have negated : - -value = -Int16.minValue := congrArg _ same
  rw [Int16.neg_neg] at negated
  exact proper negated

namespace Stack

def states (stack : Stack) : List Features := stack.base :: stack.layers.reverse

def after (stack : Stack) : Move → Stack
  | .push operation => (stack.push? operation).getD stack
  | .pop => stack.pop

def run (stack : Stack) (moves : List Move) : Stack := moves.foldl after stack

/-- The moves take off all layers that they put on, and none that were there before. -/
def Balances (stack : Stack) (moves : List Move) : Prop :=
  (∀ count ≤ moves.length, stack.depth ≤ (stack.run (moves.take count)).depth) ∧
    (stack.run moves).depth = stack.depth

instance (stack : Stack) (moves : List Move) : Decidable (stack.Balances moves) :=
  inferInstanceAs (Decidable (_ ∧ _))

structure Sized (stack : Stack) (size : Nat) : Prop where
  base : stack.base = Array.replicate size 0
  width : ∀ state ∈ stack.states, state.size = size
  proper : ∀ state ∈ stack.states, ∀ value ∈ state, value ≠ Int16.minValue

/-- What the layers are like and what becomes of them. No value is lost when it is negated, and a
feature that no layer has a place for is taken for one without a value. -/
structure Lawful (stack : Stack) (size : Nat) : Prop where
  base : stack.states.head? = some (Array.replicate size 0)
  depth : stack.states.length = stack.depth + 1
  width : ∀ state ∈ stack.states, state.size = size
  opposite : ∀ state ∈ stack.states, ∀ value ∈ state, (-value).toInt = -value.toInt
  rejected : ∀ operation, stack.push? operation = none → stack.after (.push operation) = stack
  accepted : ∀ operation pushed, stack.push? operation = some pushed →
    stack.after (.push operation) = pushed ∧ pushed.states = stack.states ++ [pushed.top] ∧
      ∀ feature, feature ≠ operation.featureNumber.toNat →
        pushed.top[feature]? = stack.top[feature]?
  outside : ∀ operation, size ≤ operation.featureNumber.toNat →
    (stack.push? operation).isSome = (operation.outcome? 0).isSome ∧
      ∀ pushed, stack.push? operation = some pushed → pushed.top = stack.top
  balanced : ∀ moves, stack.Balances moves → stack.run moves = stack

variable {stack pushed : Stack} {operation : Operation} {size : Nat}

theorem top_mem_states (stack : Stack) : stack.top ∈ stack.states := by
  unfold top states
  cases stack.layers with
  | nil => exact List.mem_cons_self
  | cons layer layers => simp

theorem push?_eq_some_iff : stack.push? operation = some pushed ↔
    ∃ next, operation.outcome? (stack.top.getD operation.featureNumber.toNat 0) = some next ∧
      pushed = { stack with
        layers := stack.top.setIfInBounds operation.featureNumber.toNat next :: stack.layers } := by
  -- a flag that changes nothing may as well be written
  have unchanged : stack.top.setIfInBounds operation.featureNumber.toNat
      (stack.top.getD operation.featureNumber.toNat 0) = stack.top := by
    apply Array.ext_getElem?
    intro feature
    rw [Array.getElem?_setIfInBounds, Array.getD_eq_getD_getElem?]
    by_cases own : operation.featureNumber.toNat = feature
    · subst own
      by_cases inside : operation.featureNumber.toNat < stack.top.size
      · simp [inside]
      · simp [inside]
    · rw [if_neg own]
  unfold push?
  dsimp only
  cases operation.outcome? (stack.top.getD operation.featureNumber.toNat 0) with
  | none => simp
  | some next =>
    by_cases same : next = stack.top.getD operation.featureNumber.toNat 0
    · simp only [Option.some.injEq, exists_eq_left', if_pos same]
      rw [same, unchanged]
      exact eq_comm
    · simp only [Option.some.injEq, exists_eq_left', if_neg same]
      exact eq_comm

theorem after_push_of_some (accepted : stack.push? operation = some pushed) :
    stack.after (.push operation) = pushed := by
  rw [after, accepted, Option.getD_some]

theorem after_push_of_none (rejected : stack.push? operation = none) :
    stack.after (.push operation) = stack := by
  rw [after, rejected, Option.getD_none]

theorem states_of_push? (accepted : stack.push? operation = some pushed) :
    pushed.states = stack.states ++ [pushed.top] := by
  obtain ⟨next, -, rfl⟩ := push?_eq_some_iff.mp accepted
  simp [states, top]

theorem sized_ofSize (size : Nat) : (ofSize size).Sized size := by
  have only : ∀ state ∈ (ofSize size).states, state = Array.replicate size 0 := fun state mem =>
    List.mem_singleton.mp mem
  refine ⟨rfl, fun state mem => ?_, fun state mem value stands => ?_⟩
  · rw [only state mem, Array.size_replicate]
  · rw [only state mem] at stands
    rw [(Array.mem_replicate.mp stands).2]
    decide

theorem Sized.push (sized : stack.Sized size) (proper : operation.valueNumber ≠ Int16.minValue)
    (accepted : stack.push? operation = some pushed) : pushed.Sized size := by
  have states := states_of_push? accepted
  obtain ⟨next, outcome, rfl⟩ := push?_eq_some_iff.mp accepted
  have width := sized.width _ stack.top_mem_states
  have properTop := sized.proper _ stack.top_mem_states
  have current : stack.top.getD operation.featureNumber.toNat 0 ≠ Int16.minValue := by
    rw [Array.getD_eq_getD_getElem?]
    cases found : stack.top[operation.featureNumber.toNat]? with
    | none => decide
    | some value => exact properTop value (Array.mem_of_getElem? found)
  have properNext : next ≠ Int16.minValue := by
    rcases operation.outcome?_cases outcome with rfl | rfl | rfl | rfl
    · exact current
    · decide
    · exact proper
    · exact neg_ne_minValue proper
  refine ⟨sized.base, fun state mem => ?_, fun state mem value stands => ?_⟩
  · rw [states, List.mem_append, List.mem_singleton] at mem
    rcases mem with old | rfl
    · exact sized.width state old
    · exact Array.size_setIfInBounds.trans width
  · rw [states, List.mem_append, List.mem_singleton] at mem
    rcases mem with old | rfl
    · exact sized.proper state old value stands
    · rcases Array.mem_or_eq_of_mem_setIfInBounds stands with kept | rfl
      · exact properTop value kept
      · exact properNext

theorem Sized.pop (sized : stack.Sized size) : stack.pop.Sized size := by
  have fewer : ∀ state ∈ stack.pop.states, state ∈ stack.states := by
    intro state mem
    simp only [states, Stack.pop, List.mem_cons, List.mem_reverse] at mem ⊢
    exact mem.imp_right List.mem_of_mem_tail
  exact ⟨sized.base, fun state mem => sized.width state (fewer state mem),
    fun state mem => sized.proper state (fewer state mem)⟩

theorem Sized.after {move : Move} (sized : stack.Sized size)
    (proper : ∀ operation, move = .push operation → operation.valueNumber ≠ Int16.minValue) :
    (stack.after move).Sized size := by
  cases move with
  | pop => exact sized.pop
  | push operation =>
    cases accepted : stack.push? operation with
    | none => rwa [after_push_of_none accepted]
    | some pushed =>
      rw [after_push_of_some accepted]
      exact sized.push (proper operation rfl) accepted

theorem Sized.run {moves : List Move} (sized : stack.Sized size)
    (proper : ∀ operation, .push operation ∈ moves → operation.valueNumber ≠ Int16.minValue) :
    (stack.run moves).Sized size := by
  induction moves generalizing stack with
  | nil => exact sized
  | cons move moves ih =>
    refine ih (sized.after fun operation same => ?_) fun operation mem => ?_
    · exact proper operation (same ▸ List.mem_cons_self)
    · exact proper operation (List.mem_cons_of_mem _ mem)

theorem run_above {base : Features} {under : List Features} (added : List Features)
    {moves : List Move} (kept : ∀ count ≤ moves.length,
      under.length ≤ (run ⟨base, added ++ under⟩ (moves.take count)).depth) :
    ∃ left, run ⟨base, added ++ under⟩ moves = ⟨base, left ++ under⟩ := by
  -- `added` are the layers that the moves so far have put above those that are never taken off
  induction moves generalizing added with
  | nil => exact ⟨added, rfl⟩
  | cons move moves ih =>
    have stepped : ∃ more, after ⟨base, added ++ under⟩ move = ⟨base, more ++ under⟩ := by
      cases move with
      | push operation =>
        cases accepted : push? ⟨base, added ++ under⟩ operation with
        | none => exact ⟨added, after_push_of_none accepted⟩
        | some pushed =>
          rw [after_push_of_some accepted]
          obtain ⟨next, -, rfl⟩ := push?_eq_some_iff.mp accepted
          exact ⟨_ :: added, rfl⟩
      | pop =>
        cases added with
        | cons layer rest => exact ⟨rest, rfl⟩
        | nil =>
          -- a pop that reached the lower layers would leave fewer of them
          have all : under.length ≤ under.tail.length := kept 1 (by simp)
          cases under with
          | nil => exact ⟨[], rfl⟩
          | cons layer rest => exact absurd all (by simp)
    obtain ⟨more, same⟩ := stepped
    have onward : ∀ rest, run ⟨base, added ++ under⟩ (move :: rest) =
        run ⟨base, more ++ under⟩ rest := fun rest => by rw [run, List.foldl_cons, same, run]
    rw [onward]
    refine ih more fun count within => ?_
    rw [← onward, ← List.take_succ_cons]
    exact kept (count + 1) (Nat.succ_le_succ within)

theorem Balances.run_eq {moves : List Move} (balances : stack.Balances moves) :
    stack.run moves = stack := by
  obtain ⟨kept, back⟩ := balances
  obtain ⟨left, same⟩ : ∃ left, stack.run moves = ⟨stack.base, left ++ stack.layers⟩ :=
    run_above [] kept
  have none : left = [] := by
    rw [same, depth, depth, List.length_append] at back
    exact List.length_eq_zero_iff.mp (by omega)
  rw [same, none, List.nil_append]

/-- After any moves, whatever features and values their flags have. -/
theorem lawful_run_ofSize (size : Nat) (moves : List Move)
    (proper : ∀ operation, .push operation ∈ moves → operation.valueNumber ≠ Int16.minValue) :
    ((ofSize size).run moves).Lawful size := by
  have sized := (sized_ofSize size).run proper
  generalize (ofSize size).run moves = stack at sized
  refine ⟨congrArg some sized.base, ?_, sized.width, ?_, fun _ => after_push_of_none, ?_, ?_,
    fun _ => Balances.run_eq⟩
  · rw [states, depth, List.length_cons, List.length_reverse]
  · exact fun state mem value stands =>
      toInt_neg_of_ne_minValue (sized.proper state mem value stands)
  · intro operation pushed accepted
    refine ⟨after_push_of_some accepted, states_of_push? accepted, fun feature other => ?_⟩
    obtain ⟨next, -, rfl⟩ := push?_eq_some_iff.mp accepted
    exact Array.getElem?_setIfInBounds_ne other.symm
  · intro operation far
    have past : stack.top.size ≤ operation.featureNumber.toNat := by
      rwa [sized.width _ stack.top_mem_states]
    have unset : stack.top.getD operation.featureNumber.toNat 0 = 0 := by
      rw [Array.getD_eq_getD_getElem?, Array.getElem?_eq_none past, Option.getD_none]
    constructor
    · rw [push?, unset]
      cases operation.outcome? 0 <;> rfl
    · intro pushed accepted
      obtain ⟨next, -, rfl⟩ := push?_eq_some_iff.mp accepted
      exact Array.setIfInBounds_eq_of_size_le past

theorem lawful_run_ofSize_outside :
    let moves : List Move := [.pop, .push ⟨.negativeSet, "C", "X", 1, 3⟩,
      .push ⟨.positiveSet, "D", "Y", 2, 5⟩, .push ⟨.require, "D", "Y", 2, 5⟩]
    let later : List Move := [.push ⟨.unification, "C", "Z", 1, 4⟩,
      .push ⟨.disallow, "C", "Z", 1, 4⟩, .pop]
    (∀ operation, .push operation ∈ moves → operation.valueNumber ≠ Int16.minValue) ∧
      ((ofSize 2).run moves).states = [#[0, 0], #[0, -3], #[0, -3]] ∧
      ((ofSize 2).run moves).Lawful 2 ∧ ((ofSize 2).run moves).Balances later ∧
      (((ofSize 2).run moves).run later).states = [#[0, 0], #[0, -3], #[0, -3]] := by
  intro moves later
  have proper : ∀ operation, .push operation ∈ moves →
      operation.valueNumber ≠ Int16.minValue := by
    intro operation mem
    simp only [moves, List.mem_cons, Move.push.injEq, reduceCtorEq, List.not_mem_nil, or_false,
      false_or] at mem
    rcases mem with rfl | rfl | rfl <;> decide
  have lawful : ((ofSize 2).run moves).Lawful 2 := lawful_run_ofSize 2 moves proper
  have balances : ((ofSize 2).run moves).Balances later := by decide
  have layers : ((ofSize 2).run moves).states = [#[0, 0], #[0, -3], #[0, -3]] := by decide
  refine ⟨proper, layers, lawful, balances, ?_⟩
  rw [lawful.balanced later balances, layers]

end Stack

end OptimizedLookup.Flag
