import OptimizedLookup.Proofs.Path.Basic

/-! Paths listed in order. `steps` computes the ways on from a point, `listing` all accepting paths
of bounded length, and `overruns` whether some path reaches the bound. The listing has every such
path once, in the order `Before`. -/
namespace OptimizedLookup.Transducer

theorem mem_takeWhile_range' {keeps : Nat → Bool} {first count number : Nat} :
    number ∈ (List.range' first count).takeWhile keeps ↔
      number < first + count ∧ InRun (fun other => keeps other = true) first number := by
  unfold InRun
  induction count generalizing first with
  | zero =>
    simp only [List.range'_zero, List.takeWhile_nil, List.not_mem_nil, false_iff]
    omega
  | succ count ih =>
    rw [List.range'_succ]
    by_cases kept : keeps first = true
    · rw [List.takeWhile_cons_of_pos kept, List.mem_cons, ih]
      constructor
      · rintro (rfl | ⟨below, from_, all⟩)
        · refine ⟨by omega, Nat.le_refl _, fun other low high => ?_⟩
          rwa [Nat.le_antisymm high low]
        · refine ⟨by omega, by omega, fun other low high => ?_⟩
          by_cases same : other = first
          · rwa [same]
          · exact all other (by omega) high
      · rintro ⟨below, from_, all⟩
        by_cases same : number = first
        · exact .inl same
        · exact .inr ⟨by omega, by omega, fun other low high => all other (by omega) high⟩
    · rw [List.takeWhile_cons_of_neg kept]
      constructor
      · exact nofun
      · rintro ⟨-, from_, all⟩
        exact absurd (all first (Nat.le_refl _) from_) kept

def consumesNothing (transducer : Transducer) (record : Nat) : Bool :=
  match transducer.transitions.input? record with
  | none => false
  | some symbol => symbol == 0 || transducer.alphabet.isFlag symbol

def hasInput (transducer : Transducer) (token : Symbol) (record : Nat) : Bool :=
  transducer.transitions.input? record == some token

def run (transducer : Transducer) (keeps : Nat → Bool) : Option Nat → List Nat
  | none => []
  | some first =>
    (List.range' first (transducer.transitions.size - first)).takeWhile keeps

def freeArcs (transducer : Transducer) (point : Point) : List Nat :=
  transducer.run transducer.consumesNothing (transducer.freeStart? (.ofTarget point.address))

def tokenArcs (transducer : Transducer) (point : Point) : List Nat :=
  match point.rest with
  | [] => []
  | token :: _ =>
    transducer.run (transducer.hasInput token) (transducer.runStart? (.ofTarget point.address) token)

def pass? (transducer : Transducer) (flags : Flag.Stack) (symbol : Symbol) : Option Flag.Stack :=
  if symbol = 0 then some flags else (transducer.alphabet.operation? symbol).bind flags.push?

def arrive? (transducer : Transducer) (point : Point) (record : Nat) : Option (Nat × Point) :=
  (transducer.transitions.target? record).map fun address =>
    (record, { point with address := address })

def freeStep? (transducer : Transducer) (point : Point) (record : Nat) : Option (Nat × Point) := do
  let symbol ← transducer.transitions.input? record
  let flags ← transducer.pass? point.flags symbol
  transducer.arrive? { point with flags := flags } record

def tokenStep? (transducer : Transducer) (point : Point) (record : Nat) : Option (Nat × Point) :=
  transducer.arrive? { point with rest := point.rest.tail } record

def steps (transducer : Transducer) (point : Point) : List (Nat × Point) :=
  (transducer.freeArcs point).filterMap (transducer.freeStep? point) ++
    (transducer.tokenArcs point).filterMap (transducer.tokenStep? point)

def overruns (transducer : Transducer) : (level : Nat) → Point → Bool
  | 0, _ => true
  | level + 1, point => (transducer.steps point).any fun (_, next) => transducer.overruns level next

def ending (transducer : Transducer) (point : Point) : List (List Nat × ArcWeight) :=
  match point.rest with
  | [] => ((transducer.finalWeight? (.ofTarget point.address)).map fun final => ([], final)).toList
  | _ :: _ => []

/-- The accepting paths with fewer than `level` records, each with its final weight. -/
def listing (transducer : Transducer) : (level : Nat) → Point → List (List Nat × ArcWeight)
  | 0, _ => []
  | level + 1, point =>
    ((transducer.steps point).flatMap fun (record, next) =>
      (transducer.listing level next).map fun (path, final) => (record :: path, final)) ++
    transducer.ending point

section Arcs

variable {transducer : Transducer} {point : Point} {record : Nat}

theorem runStart?_eq_some_iff {symbol : Symbol} {address : UInt32} {first : Nat} :
    transducer.runStart? (.ofTarget address) symbol = some first ↔
      transducer.RunStart symbol address first := by
  unfold State.ofTarget
  by_cases within : transitionBase ≤ address
  · rw [if_pos within]
    simp only [runStart?, Option.some.injEq]
    constructor
    · intro same
      rw [← same]
      exact .ofRecord within
    · rintro (⟨below, -, -, -⟩ | -)
      · exact absurd within (UInt32.not_le.mpr below)
      · trivial
  · rw [if_neg within]
    simp only [runStart?, IndexTable.runStart?, Option.ite_none_right_eq_some,
      Option.bind_eq_some_iff, Option.some.injEq]
    constructor
    · rintro ⟨own, target, points, far, same⟩
      rw [← same]
      exact .ofSlot (UInt32.not_le.mp within) own points far
    · rintro (⟨-, own, points, far⟩ | far)
      · exact ⟨own, _, points, far, rfl⟩
      · exact absurd far within

theorem consumesNothing_iff :
    transducer.consumesNothing record = true ↔ transducer.ConsumesNothing record := by
  unfold consumesNothing ConsumesNothing
  cases transducer.transitions.input? record <;> simp

theorem hasInput_iff {token : Symbol} :
    transducer.hasInput token record = true ↔
      transducer.transitions.input? record = some token := by
  simp [hasInput]

theorem lt_size_of_input? {symbol : Symbol}
    (input : transducer.transitions.input? record = some symbol) :
    record < transducer.transitions.size := by
  obtain ⟨stored, found, -⟩ := Option.bind_eq_some_iff.mp input
  exact (Array.getElem?_eq_some_iff.mp found).1

theorem mem_run {keeps : Nat → Bool} {start : Option Nat}
    (inside : ∀ other, keeps other = true → other < transducer.transitions.size) :
    record ∈ transducer.run keeps start ↔
      ∃ first, start = some first ∧ InRun (fun other => keeps other = true) first record := by
  cases start with
  | none => simp [run]
  | some first =>
    simp only [run, mem_takeWhile_range', Option.some.injEq, exists_eq_left']
    constructor
    · exact And.right
    · intro belongs
      have := inside record (belongs.2 record belongs.1 (Nat.le_refl _))
      exact ⟨by omega, belongs⟩

theorem mem_freeArcs :
    record ∈ transducer.freeArcs point ↔ transducer.FreeArc point.address record := by
  have inside : ∀ other, transducer.consumesNothing other = true →
      other < transducer.transitions.size := by
    intro other free
    obtain ⟨symbol, input, -⟩ := consumesNothing_iff.mp free
    exact lt_size_of_input? input
  rw [freeArcs, mem_run inside]
  simp only [freeStart?, runStart?_eq_some_iff, consumesNothing_iff, FreeArc]

theorem mem_tokenArcs :
    record ∈ transducer.tokenArcs point ↔
      ∃ token rest, point.rest = token :: rest ∧
        transducer.TokenArc token point.address record := by
  unfold tokenArcs
  cases point.rest with
  | nil => simp
  | cons token rest =>
    have inside : ∀ other, transducer.hasInput token other = true →
        other < transducer.transitions.size := fun other input =>
      lt_size_of_input? (hasInput_iff.mp input)
    simp only [mem_run inside, runStart?_eq_some_iff, hasInput_iff, List.cons.injEq, TokenArc]
    constructor
    · exact fun arc => ⟨token, rest, ⟨rfl, rfl⟩, arc⟩
    · rintro ⟨_, _, ⟨rfl, rfl⟩, arc⟩
      exact arc

theorem FreeArc.consumesNothing {address : UInt32} (arc : transducer.FreeArc address record) :
    transducer.ConsumesNothing record := by
  obtain ⟨first, -, le, all⟩ := arc
  exact all record le (Nat.le_refl _)

theorem TokenArc.input {token : Symbol} {address : UInt32}
    (arc : transducer.TokenArc token address record) :
    transducer.transitions.input? record = some token := by
  obtain ⟨first, -, le, all⟩ := arc
  exact all record le (Nat.le_refl _)

theorem pass?_eq_some_iff {flags passed : Flag.Stack} {symbol : Symbol} :
    transducer.pass? flags symbol = some passed ↔
      symbol = 0 ∧ passed = flags ∨ symbol ≠ 0 ∧ ∃ operation,
        transducer.alphabet.operation? symbol = some operation ∧
          flags.push? operation = some passed := by
  unfold pass?
  by_cases zero : symbol = 0
  · simp [zero, eq_comm]
  · simp [zero, Option.bind_eq_some_iff]

theorem arrive?_eq_some_iff {result : Nat × Point} :
    transducer.arrive? point record = some result ↔
      ∃ address, transducer.transitions.target? record = some address ∧
        (record, { point with address := address }) = result :=
  Option.map_eq_some_iff

theorem freeStep?_eq_some_iff {result : Nat × Point} :
    transducer.freeStep? point record = some result ↔
      ∃ symbol, transducer.transitions.input? record = some symbol ∧
        ∃ flags, transducer.pass? point.flags symbol = some flags ∧
          transducer.arrive? { point with flags := flags } record = some result := by
  simp only [freeStep?, bind, Option.bind_eq_some_iff]

theorem mem_steps {next : Point} :
    (record, next) ∈ transducer.steps point ↔ transducer.Step point record next := by
  simp only [steps, List.mem_append, List.mem_filterMap, mem_freeArcs, mem_tokenArcs]
  constructor
  · rintro (⟨other, arc, taken⟩ | ⟨other, ⟨token, rest, onward, arc⟩, taken⟩)
    · obtain ⟨symbol, input, flags, passed, arrived⟩ := freeStep?_eq_some_iff.mp taken
      obtain ⟨address, target, same⟩ := arrive?_eq_some_iff.mp arrived
      cases same
      obtain ⟨rfl, rfl⟩ | ⟨proper, operation, isFlag, accepted⟩ := pass?_eq_some_iff.mp passed
      · exact .epsilon arc input target
      · exact .flag arc input proper isFlag accepted target
    · obtain ⟨address, target, same⟩ := arrive?_eq_some_iff.mp taken
      cases same
      rw [onward, List.tail_cons]
      exact .token onward arc target
  · intro step
    cases step with
    | epsilon arc input target =>
      exact .inl ⟨record, arc, freeStep?_eq_some_iff.mpr
        ⟨0, input, _, pass?_eq_some_iff.mpr (.inl ⟨rfl, rfl⟩),
          arrive?_eq_some_iff.mpr ⟨_, target, rfl⟩⟩⟩
    | flag arc input proper isFlag accepted target =>
      exact .inl ⟨record, arc, freeStep?_eq_some_iff.mpr
        ⟨_, input, _, pass?_eq_some_iff.mpr (.inr ⟨proper, _, isFlag, accepted⟩),
          arrive?_eq_some_iff.mpr ⟨_, target, rfl⟩⟩⟩
    | token onward arc target =>
      exact .inr ⟨record, ⟨_, _, onward, arc⟩,
        arrive?_eq_some_iff.mpr ⟨_, target, by rw [onward, List.tail_cons]⟩⟩

theorem finalWeight?_eq_some_iff {address : UInt32} {final : ArcWeight} :
    transducer.finalWeight? (.ofTarget address) = some final ↔
      transducer.FinalWeight address final := by
  unfold State.ofTarget
  by_cases within : transitionBase ≤ address
  · rw [if_pos within]
    simp only [finalWeight?, TransitionTable.isFinal, Option.ite_none_right_eq_some,
      Bool.and_eq_true, Option.isNone_iff_eq_none, beq_iff_eq]
    constructor
    · rintro ⟨⟨⟨noInput, noOutput⟩, mark⟩, stored⟩
      exact .ofRecord within noInput noOutput mark stored
    · rintro (⟨below, -, -, -⟩ | ⟨-, noInput, noOutput, mark, stored⟩)
      · exact absurd within (UInt32.not_le.mpr below)
      · exact ⟨⟨⟨noInput, noOutput⟩, mark⟩, stored⟩
  · rw [if_neg within]
    simp only [finalWeight?, IndexTable.isFinal, Option.ite_none_right_eq_some,
      Bool.and_eq_true, Option.isNone_iff_eq_none, Option.isSome_iff_ne_none]
    constructor
    · rintro ⟨⟨noInput, target⟩, stored⟩
      exact .ofSlot (UInt32.not_le.mp within) noInput target stored
    · rintro (⟨-, noInput, target, stored⟩ | ⟨far, -, -, -, -⟩)
      · exact ⟨⟨noInput, target⟩, stored⟩
      · exact absurd far within

theorem mem_ending {path : List Nat} {final : ArcWeight} :
    (path, final) ∈ transducer.ending point ↔
      path = [] ∧ point.rest = [] ∧ transducer.FinalWeight point.address final := by
  unfold ending
  cases point.rest with
  | nil =>
    simp only [Option.mem_toList, Option.map_eq_some_iff, Prod.mk.injEq,
      finalWeight?_eq_some_iff, true_and]
    constructor
    · rintro ⟨_, accepts, rfl, rfl⟩
      exact ⟨rfl, accepts⟩
    · rintro ⟨rfl, accepts⟩
      exact ⟨final, accepts, rfl, rfl⟩
  | cons => simp

end Arcs

section Paths

variable {transducer : Transducer} {point : Point} {level : Nat}

theorem overruns_iff :
    transducer.overruns level point = true ↔
      ∃ path last, path.length = level ∧ transducer.Follows point path last := by
  induction level generalizing point with
  | zero => exact ⟨fun _ => ⟨[], point, rfl, .nil point⟩, fun _ => rfl⟩
  | succ level ih =>
    simp only [overruns, List.any_eq_true, Prod.exists, mem_steps, ih]
    constructor
    · rintro ⟨record, next, step, path, last, length, follows⟩
      exact ⟨record :: path, last, by simp [length], .cons step follows⟩
    · rintro ⟨path, last, length, follows⟩
      cases follows with
      | nil => contradiction
      | cons step follows => exact ⟨_, _, step, _, last, Nat.succ.inj length, follows⟩

theorem overruns_iff_le :
    transducer.overruns level point = true ↔
      ∃ path last, transducer.Follows point path last ∧ level ≤ path.length := by
  rw [overruns_iff]
  constructor
  · rintro ⟨path, last, length, follows⟩
    exact ⟨path, last, follows, Nat.le_of_eq length.symm⟩
  · rintro ⟨path, last, follows, long⟩
    rw [← List.take_append_drop level path] at follows
    obtain ⟨middle, front, -⟩ := follows.split
    exact ⟨path.take level, middle, List.length_take_of_le long, front⟩

theorem mem_listing {path : List Nat} {final : ArcWeight} :
    (path, final) ∈ transducer.listing level point ↔
      path.length < level ∧ ∃ last, transducer.Follows point path last ∧ last.rest = [] ∧
        transducer.FinalWeight last.address final := by
  induction level generalizing point path final with
  | zero => simp [listing]
  | succ level ih =>
    simp only [listing, List.mem_append, List.mem_flatMap, List.mem_map, Prod.exists, mem_steps,
      mem_ending, Prod.mk.injEq, ih]
    constructor
    · rintro (⟨record, next, step, path, _, ⟨short, last, follows, accepts⟩, rfl, rfl⟩ |
        ⟨rfl, accepts⟩)
      · exact ⟨Nat.succ_lt_succ short, last, .cons step follows, accepts⟩
      · exact ⟨Nat.succ_pos level, point, .nil point, accepts⟩
    · rintro ⟨short, last, follows, accepts⟩
      cases follows with
      | nil => exact .inr ⟨rfl, accepts⟩
      | cons step follows =>
        exact .inl ⟨_, _, step, _, _, ⟨Nat.lt_of_succ_lt_succ short, last, follows, accepts⟩,
          rfl, rfl⟩

/-- What a token has to be for no record to be both free and on the token. -/
def Literal (transducer : Transducer) (token : Symbol) : Prop :=
  token ≠ 0 ∧ transducer.alphabet.isFlag token = false

theorem Literal.not_consumesNothing {token : Symbol} {record : Nat}
    (literal : transducer.Literal token)
    (input : transducer.transitions.input? record = some token) :
    ¬ transducer.ConsumesNothing record := by
  rintro ⟨symbol, same, zero | flag⟩
  · exact literal.1 (Option.some.inj (input.symm.trans same) ▸ zero)
  · rw [← Option.some.inj (input.symm.trans same), literal.2] at flag
    contradiction

theorem Step.rest_suffix {record : Nat} {next : Point}
    (step : transducer.Step point record next) : next.rest <:+ point.rest := by
  cases step with
  | epsilon => exact List.suffix_refl _
  | flag => exact List.suffix_refl _
  | token onward =>
    rw [onward]
    exact List.suffix_cons _ _

theorem pairwise_run (keeps : Nat → Bool) (start : Option Nat) :
    (transducer.run keeps start).Pairwise (· < ·) := by
  cases start with
  | none => exact .nil
  | some first => exact (List.pairwise_lt_range' 1).sublist (List.takeWhile_sublist _)

theorem pairwise_steps (literal : ∀ token ∈ point.rest, transducer.Literal token) :
    (transducer.steps point).Pairwise fun left right =>
      transducer.RecordBefore left.1 right.1 := by
  have free {record : Nat} {result : Nat × Point} (arc : record ∈ transducer.freeArcs point)
      (taken : transducer.freeStep? point record = some result) :
      result.1 = record ∧ transducer.ConsumesNothing result.1 := by
    obtain ⟨_, -, _, -, arrived⟩ := freeStep?_eq_some_iff.mp taken
    obtain ⟨_, -, rfl⟩ := arrive?_eq_some_iff.mp arrived
    exact ⟨rfl, (mem_freeArcs.mp arc).consumesNothing⟩
  have onToken {record : Nat} {result : Nat × Point} (arc : record ∈ transducer.tokenArcs point)
      (taken : transducer.tokenStep? point record = some result) :
      result.1 = record ∧ ¬ transducer.ConsumesNothing result.1 := by
    obtain ⟨_, -, rfl⟩ := arrive?_eq_some_iff.mp taken
    obtain ⟨token, rest, onward, arc⟩ := mem_tokenArcs.mp arc
    exact ⟨rfl, (literal token (by simp [onward])).not_consumesNothing arc.input⟩
  have tokenRun : (transducer.tokenArcs point).Pairwise (· < ·) := by
    unfold tokenArcs
    cases point.rest with
    | nil => exact .nil
    | cons => exact pairwise_run _ _
  refine List.pairwise_append.mpr ⟨?_, ?_, ?_⟩
  · refine List.pairwise_filterMap.mpr ((pairwise_run _ _).imp_of_mem ?_)
    intro left right leftArc rightArc lt leftResult leftTaken rightResult rightTaken
    obtain ⟨rfl, leftFree⟩ := free leftArc leftTaken
    obtain ⟨rfl, rightFree⟩ := free rightArc rightTaken
    exact .inr ⟨iff_of_true leftFree rightFree, lt⟩
  · refine List.pairwise_filterMap.mpr (tokenRun.imp_of_mem ?_)
    intro left right leftArc rightArc lt leftResult leftTaken rightResult rightTaken
    obtain ⟨rfl, leftUsed⟩ := onToken leftArc leftTaken
    obtain ⟨rfl, rightUsed⟩ := onToken rightArc rightTaken
    exact .inr ⟨iff_of_false leftUsed rightUsed, lt⟩
  · intro left leftMem right rightMem
    obtain ⟨_, leftArc, leftTaken⟩ := List.mem_filterMap.mp leftMem
    obtain ⟨_, rightArc, rightTaken⟩ := List.mem_filterMap.mp rightMem
    exact .inl ⟨(free leftArc leftTaken).2, (onToken rightArc rightTaken).2⟩

theorem pairwise_listing (literal : ∀ token ∈ point.rest, transducer.Literal token) :
    (transducer.listing level point).Pairwise fun left right =>
      transducer.Before left.1 right.1 := by
  induction level generalizing point with
  | zero => exact .nil
  | succ level ih =>
    refine List.pairwise_append.mpr ⟨List.pairwise_flatMap.mpr ⟨?_, ?_⟩, ?_, ?_⟩
    · rintro ⟨record, next⟩ taken
      have suffix := (mem_steps.mp taken).rest_suffix
      refine List.pairwise_map.mpr ((ih fun token mem => literal token (suffix.mem mem)).imp ?_)
      exact fun before => .shared record before
    · apply (pairwise_steps literal).imp
      intro left right before leftPath leftMem rightPath rightMem
      obtain ⟨leftRest, -, rfl⟩ := List.mem_map.mp leftMem
      obtain ⟨rightRest, -, rfl⟩ := List.mem_map.mp rightMem
      exact .parted before _ _
    · unfold ending
      split
      · cases transducer.finalWeight? (.ofTarget point.address) <;> simp
      · exact .nil
    · rintro left leftMem ⟨path, final⟩ rightMem
      obtain ⟨⟨record, next⟩, -, inside⟩ := List.mem_flatMap.mp leftMem
      obtain ⟨leftRest, -, rfl⟩ := List.mem_map.mp inside
      obtain ⟨rfl, -⟩ := mem_ending.mp rightMem
      exact .continued record leftRest.1

end Paths

end OptimizedLookup.Transducer
