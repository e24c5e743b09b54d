import OptimizedLookup.Proofs.Alphabet.Numbering

/-! Flag states by number do what environments by name do. A push by number on the image of an
environment is the image of the push by name, and so the two stacks agree on everything that can be
seen of them, move by move. -/
namespace OptimizedLookup

namespace Alphabet

variable {alphabet : Alphabet} {binding other : Flag.Binding}

theorem knows_none : alphabet.Knows none := nofun

theorem toInt_ofNat_valueNumber (numbered : alphabet.Numbered) {value : String}
    (known : value ∈ alphabet.valueNames) :
    (Int16.ofNat (alphabet.valueNames.idxOf value + 1)).toInt =
      alphabet.valueNames.idxOf value + 1 := by
  have place := List.idxOf_lt_length_of_mem known
  have few := numbered.values
  exact Int16.toInt_ofNat_of_lt (by omega)

theorem toInt_number (numbered : alphabet.Numbered) (knows : alphabet.Knows binding) :
    (alphabet.number binding).toInt =
      match binding with
      | none => 0
      | some (value, .positive) => (alphabet.valueNames.idxOf value + 1 : Int)
      | some (value, .negative) => -(alphabet.valueNames.idxOf value + 1 : Int) := by
  match binding with
  | none => rfl
  | some (value, .positive) => exact toInt_ofNat_valueNumber numbered (knows _ _ rfl)
  | some (value, .negative) =>
    have place := List.idxOf_lt_length_of_mem (knows _ _ rfl)
    have few := numbered.values
    rw [number, Int16.toInt_neg, toInt_ofNat_valueNumber numbered (knows _ _ rfl)]
    exact Int.bmod_eq_of_le (by omega) (by omega)

theorem idxOf_valueNames_inj {left right : String} (known : left ∈ alphabet.valueNames)
    (same : alphabet.valueNames.idxOf left = alphabet.valueNames.idxOf right) : left = right :=
  Interning.idxOf_eraseDups_inj (List.mem_eraseDups.mp known) same

theorem number_inj (numbered : alphabet.Numbered) (knows : alphabet.Knows binding)
    (knowsOther : alphabet.Knows other) :
    alphabet.number binding = alphabet.number other ↔ binding = other := by
  refine ⟨fun same => ?_, congrArg _⟩
  have sameInt := congrArg Int16.toInt same
  rw [toInt_number numbered knows, toInt_number numbered knowsOther] at sameInt
  match binding, other with
  | none, none => rfl
  | none, some (_, .positive) => dsimp only at sameInt; omega
  | none, some (_, .negative) => dsimp only at sameInt; omega
  | some (_, .positive), none => dsimp only at sameInt; omega
  | some (_, .negative), none => dsimp only at sameInt; omega
  | some (_, .positive), some (_, .negative) => dsimp only at sameInt; omega
  | some (_, .negative), some (_, .positive) => dsimp only at sameInt; omega
  | some (left, .positive), some (right, .positive) =>
    have place : alphabet.valueNames.idxOf left = alphabet.valueNames.idxOf right := by
      dsimp only at sameInt
      omega
    rw [idxOf_valueNames_inj (knows _ _ rfl) place]
  | some (left, .negative), some (right, .negative) =>
    have place : alphabet.valueNames.idxOf left = alphabet.valueNames.idxOf right := by
      dsimp only at sameInt
      omega
    rw [idxOf_valueNames_inj (knows _ _ rfl) place]

theorem number_lt_zero_iff (numbered : alphabet.Numbered) (knows : alphabet.Knows binding) :
    alphabet.number binding < 0 ↔ ∃ value, binding = some (value, .negative) := by
  rw [Int16.lt_iff_toInt_lt, toInt_number numbered knows, Int16.toInt_zero]
  match binding with
  | none => exact ⟨fun below => absurd below (Int.lt_irrefl 0), nofun⟩
  | some (value, .positive) =>
    refine ⟨fun below => ?_, nofun⟩
    dsimp only at below
    omega
  | some (value, .negative) =>
    refine ⟨fun _ => ⟨value, rfl⟩, fun _ => ?_⟩
    dsimp only
    omega

theorem neg_number_negative (alphabet : Alphabet) (value : String) :
    -alphabet.number (some (value, .negative)) = alphabet.number (some (value, .positive)) :=
  Int16.neg_neg

end Alphabet

namespace Flag

variable {alphabet : Alphabet} {symbol : Symbol} {operation : Operation} {current : Binding}

theorem unifies_number_iff (numbered : alphabet.Numbered) {value : String}
    (known : value ∈ alphabet.valueNames) (knows : alphabet.Knows current) :
    (alphabet.number current = 0 ∨
        alphabet.number current = alphabet.number (some (value, .positive)) ∨
        alphabet.number current < 0 ∧
          -alphabet.number current ≠ alphabet.number (some (value, .positive))) ↔
      current = none ∨ current = some (value, .positive) ∨
        ∃ other, current = some (other, .negative) ∧ other ≠ value := by
  have knowsValue : alphabet.Knows (some (value, .positive)) := by
    rintro _ _ ⟨⟩
    exact known
  have isUnbound : alphabet.number current = 0 ↔ current = none :=
    Alphabet.number_inj numbered knows Alphabet.knows_none
  rw [isUnbound, Alphabet.number_inj numbered knows knowsValue,
    Alphabet.number_lt_zero_iff numbered knows]
  refine or_congr Iff.rfl (or_congr Iff.rfl ⟨?_, ?_⟩)
  · rintro ⟨⟨other, rfl⟩, different⟩
    rw [Alphabet.neg_number_negative] at different
    exact ⟨other, rfl, fun same => different (by rw [same])⟩
  · rintro ⟨other, rfl, different⟩
    have knowsOther : alphabet.Knows (some (other, .positive)) := by
      rintro _ _ ⟨⟩
      exact knows _ _ rfl
    refine ⟨⟨other, rfl⟩, ?_⟩
    rw [Alphabet.neg_number_negative, ne_eq, Alphabet.number_inj numbered knowsOther knowsValue]
    rintro ⟨⟩
    exact different rfl

/-- A flag does to the number of a binding what it does to the binding. -/
theorem Operation.outcome?_number (numbered : alphabet.Numbered)
    (found : alphabet.operation? symbol = some operation) (knows : alphabet.Knows current) :
    operation.outcome? (alphabet.number current) =
      (operation.rebind? current).map alphabet.number := by
  obtain ⟨known, valueNumber⟩ := numbered.value symbol operation found
  have knowsValue : alphabet.Knows (some (operation.value, .positive)) := by
    rintro _ _ ⟨⟩
    exact known
  have isValue : alphabet.number current = operation.valueNumber ↔
      current = some (operation.value, .positive) := by
    rw [valueNumber]
    exact Alphabet.number_inj numbered knows knowsValue
  have isUnbound : alphabet.number current = 0 ↔ current = none :=
    Alphabet.number_inj numbered knows Alphabet.knows_none
  have hasValue : operation.hasValue = true ↔ operation.value ≠ "" := decide_eq_true_iff
  unfold outcome? rebind?
  cases operation.operator with
  | positiveSet => rw [valueNumber]; rfl
  | negativeSet => rw [valueNumber]; rfl
  | clear => rfl
  | require =>
    simp only [hasValue, isValue, ne_eq, isUnbound]
    by_cases empty : operation.value = ""
    · by_cases unbound : current = none <;> simp [empty, unbound]
    · by_cases bound : current = some (operation.value, .positive) <;> simp [empty, bound]
  | disallow =>
    simp only [hasValue, isValue, ne_eq, isUnbound]
    by_cases empty : operation.value = ""
    · by_cases unbound : current = none <;> simp [empty, unbound]
    · by_cases bound : current = some (operation.value, .positive) <;> simp [empty, bound]
  | unification =>
    have unifies := unifies_number_iff numbered known knows
    dsimp only
    rw [valueNumber]
    match current with
    | none => rw [if_pos (unifies.mpr (.inl rfl))]; rfl
    | some (other, .positive) =>
      dsimp only
      by_cases same : other = operation.value
      · rw [if_pos (unifies.mpr (.inr (.inl (by rw [same])))), if_pos same]
        rfl
      · rw [if_neg (mt unifies.mp (by simpa using same)), if_neg same]
        rfl
    | some (other, .negative) =>
      dsimp only
      by_cases same : other = operation.value
      · rw [if_neg (mt unifies.mp (by simpa using same)), if_neg (not_not_intro same)]
        rfl
      · rw [if_pos (unifies.mpr (.inr (.inr ⟨other, rfl, same⟩))), if_pos same]
        rfl

theorem Operation.rebind?_cases {binding : Binding}
    (rebound : operation.rebind? current = some binding) :
    binding = current ∨ binding = none ∨ ∃ polarity, binding = some (operation.value, polarity) := by
  unfold rebind? at rebound
  cases operator : operation.operator with
  | positiveSet =>
    rw [operator] at rebound
    exact .inr (.inr ⟨.positive, (Option.some.inj rebound).symm⟩)
  | negativeSet =>
    rw [operator] at rebound
    exact .inr (.inr ⟨.negative, (Option.some.inj rebound).symm⟩)
  | clear =>
    rw [operator] at rebound
    exact .inr (.inl (Option.some.inj rebound).symm)
  | require =>
    rw [operator] at rebound
    exact .inl (Option.some.inj (Option.ite_none_right_eq_some.mp rebound).2).symm
  | disallow =>
    rw [operator] at rebound
    exact .inl (Option.some.inj (Option.ite_none_right_eq_some.mp rebound).2).symm
  | unification =>
    rw [operator] at rebound
    refine .inr (.inr ⟨.positive, ?_⟩)
    match current with
    | none => exact (Option.some.inj rebound).symm
    | some (other, .positive) =>
      exact (Option.some.inj (Option.ite_none_right_eq_some.mp rebound).2).symm
    | some (other, .negative) =>
      exact (Option.some.inj (Option.ite_none_right_eq_some.mp rebound).2).symm

theorem Operation.knows_of_rebind? {binding : Binding} (known : operation.value ∈ alphabet.valueNames)
    (knows : alphabet.Knows current) (rebound : operation.rebind? current = some binding) :
    alphabet.Knows binding := by
  rcases rebind?_cases rebound with rfl | rfl | ⟨polarity, rfl⟩
  · exact knows
  · exact Alphabet.knows_none
  · rintro _ _ ⟨⟩
    exact known

theorem getElem?_encode (alphabet : Alphabet) (environment : Environment) (index : Nat) :
    (alphabet.encode environment)[index]? =
      alphabet.featureNames[index]?.map fun feature => alphabet.number (environment feature) := by
  rw [Alphabet.encode, List.getElem?_toArray, List.getElem?_map]

theorem encode_bind {environment : Environment} {index : Nat} {feature : String}
    (place : alphabet.featureNames[index]? = some feature) (binding : Binding) :
    alphabet.encode (environment.bind feature binding) =
      (alphabet.encode environment).setIfInBounds index (alphabet.number binding) := by
  have size : (alphabet.encode environment).size = alphabet.featureNames.length := by
    rw [Alphabet.encode, List.size_toArray, List.length_map]
  have within : index < alphabet.featureNames.length := (List.getElem?_eq_some_iff.mp place).1
  have nodup : alphabet.featureNames.Nodup := Interning.nodup_eraseDups _
  apply Array.ext_getElem?
  intro other
  rw [getElem?_encode, Array.getElem?_setIfInBounds, getElem?_encode]
  by_cases same : index = other
  · rw [if_pos same, if_pos (size ▸ within), ← same, place, Option.map_some]
    simp [Environment.bind]
  · rw [if_neg same]
    cases found : alphabet.featureNames[other]? with
    | none => rfl
    | some name =>
      have different : name ≠ feature := by
        rintro rfl
        exact same ((List.getElem?_inj within nodup).mp (place.trans found.symm))
      rw [Option.map_some, Option.map_some, Environment.bind, if_neg different]

namespace Environments

/-- The stack of states that stands for a stack of environments. -/
def image (alphabet : Alphabet) (environments : Environments) : Stack :=
  ⟨alphabet.encode environments.base, environments.layers.map alphabet.encode⟩

def KnownTo (alphabet : Alphabet) (environments : Environments) : Prop :=
  ∀ environment ∈ environments.base :: environments.layers, ∀ feature,
    alphabet.Knows (environment feature)

variable {environments pushed : Environments}

theorem top_image (alphabet : Alphabet) (environments : Environments) :
    (environments.image alphabet).top = alphabet.encode environments.top := by
  unfold Stack.top image top
  cases environments.layers <;> rfl

theorem depth_image (alphabet : Alphabet) (environments : Environments) :
    (environments.image alphabet).depth = environments.depth :=
  List.length_map _

theorem pop_image (alphabet : Alphabet) (environments : Environments) :
    (environments.image alphabet).pop = environments.pop.image alphabet := by
  unfold Stack.pop image pop
  rw [List.map_tail]

theorem KnownTo.top (knownTo : environments.KnownTo alphabet) (feature : String) :
    alphabet.Knows (environments.top feature) := by
  refine knownTo _ ?_ feature
  unfold Environments.top
  cases environments.layers with
  | nil => exact List.mem_cons_self
  | cons layer layers => exact List.mem_cons_of_mem _ List.mem_cons_self

theorem KnownTo.pop (knownTo : environments.KnownTo alphabet) :
    environments.pop.KnownTo alphabet := by
  intro environment mem
  apply knownTo environment
  rcases List.mem_cons.mp mem with same | mem
  · exact same ▸ List.mem_cons_self
  · exact List.mem_cons_of_mem _ (List.mem_of_mem_tail mem)

theorem KnownTo.push (knownTo : environments.KnownTo alphabet)
    (known : operation.value ∈ alphabet.valueNames)
    (accepted : environments.push? operation = some pushed) : pushed.KnownTo alphabet := by
  obtain ⟨binding, rebound, rfl⟩ := Option.map_eq_some_iff.mp accepted
  intro environment mem feature
  rcases List.mem_cons.mp mem with same | mem
  · exact knownTo environment (same ▸ List.mem_cons_self) feature
  rcases List.mem_cons.mp mem with rfl | mem
  · unfold Environment.bind
    by_cases same : feature = operation.feature
    · rw [if_pos same]
      exact operation.knows_of_rebind? known (knownTo.top _) rebound
    · rw [if_neg same]
      exact knownTo.top feature
  · exact knownTo environment (List.mem_cons_of_mem _ mem) feature

theorem push?_image (numbered : alphabet.Numbered)
    (found : alphabet.operation? symbol = some operation)
    (knownTo : environments.KnownTo alphabet) :
    (environments.image alphabet).push? operation =
      (environments.push? operation).map (image alphabet) := by
  have place := numbered.feature symbol operation found
  have known := (numbered.value symbol operation found).1
  have knowsTop := knownTo.top operation.feature
  have current : (alphabet.encode environments.top).getD operation.featureNumber.toNat 0 =
      alphabet.number (environments.top operation.feature) := by
    rw [Array.getD_eq_getD_getElem?, getElem?_encode, place]
    rfl
  unfold Stack.push? push?
  rw [top_image]
  dsimp only
  rw [current, operation.outcome?_number numbered found knowsTop]
  cases rebound : operation.rebind? (environments.top operation.feature) with
  | none => rfl
  | some binding =>
    have knowsBinding := operation.knows_of_rebind? known knowsTop rebound
    have layer : (if alphabet.number binding =
          alphabet.number (environments.top operation.feature) then
        alphabet.encode environments.top
      else (alphabet.encode environments.top).setIfInBounds operation.featureNumber.toNat
        (alphabet.number binding)) =
      alphabet.encode (environments.top.bind operation.feature binding) := by
      by_cases same : alphabet.number binding =
          alphabet.number (environments.top operation.feature)
      · rw [if_pos same, (Alphabet.number_inj numbered knowsBinding knowsTop).mp same,
          Environment.bind_self]
      · rw [if_neg same, encode_bind place]
    simp only [Option.map_some, layer]
    rfl

theorem trace_image (numbered : alphabet.Numbered) {moves : List Move}
    (own : ∀ operation, .push operation ∈ moves →
      ∃ symbol, alphabet.operation? symbol = some operation)
    (knownTo : environments.KnownTo alphabet) :
    (environments.image alphabet).trace moves = environments.trace alphabet.encode moves := by
  -- images stay images, and their tops and depths are all that is seen
  induction moves generalizing environments with
  | nil => rfl
  | cons move moves ih =>
    have ownRest : ∀ operation, .push operation ∈ moves →
        ∃ symbol, alphabet.operation? symbol = some operation :=
      fun operation mem => own operation (List.mem_cons_of_mem _ mem)
    cases move with
    | push operation =>
      obtain ⟨symbol, found⟩ := own operation List.mem_cons_self
      rw [Stack.trace, trace, push?_image numbered found knownTo]
      cases accepted : environments.push? operation with
      | none =>
        dsimp only [Option.map_none]
        rw [top_image, depth_image, ih ownRest knownTo]
      | some pushed =>
        have known := (numbered.value symbol operation found).1
        dsimp only [Option.map_some]
        rw [top_image, depth_image, ih ownRest (knownTo.push known accepted)]
    | pop =>
      rw [Stack.trace, trace, pop_image, top_image, depth_image, ih ownRest knownTo.pop]

theorem image_unbound (numbered : alphabet.Numbered) :
    unbound.image alphabet = Stack.ofSize alphabet.featureCount := by
  rw [numbered.featureCount, Stack.ofSize, ← List.toArray_replicate, ← List.map_const']
  rfl

end Environments

/-- On the flags of an alphabet that was read, states by number are the environments by name as the
alphabet numbers them. -/
theorem Stack.trace_ofSize {count : UInt16} {source rest : Source}
    (parsed : (Alphabet.read count.toNat).run source = .ok (alphabet, rest)) {moves : List Move}
    (own : ∀ operation, .push operation ∈ moves →
      ∃ symbol, alphabet.operation? symbol = some operation) :
    alphabet.Numbered ∧ (Stack.ofSize alphabet.featureCount).trace moves =
      Environments.unbound.trace alphabet.encode moves := by
  obtain ⟨texts, length, made⟩ := Alphabet.of_read parsed
  have numbered := made.numbered (length ▸ count.toNat_lt)
  have knownTo : Environments.unbound.KnownTo alphabet := by
    intro environment mem feature
    rw [List.mem_singleton.mp mem]
    exact Alphabet.knows_none
  rw [← Environments.image_unbound numbered]
  exact ⟨numbered, Environments.trace_image numbered own knownTo⟩

theorem Stack.trace_ofSize_excluded : ∃ alphabet rest,
    (Alphabet.read (4 : UInt16).toNat).run (.ofBytes
      (["", "@N.C.X@", "@U.C.Y@", "@R.C.X@"].flatMap fun text =>
        Alphabet.terminated text.toList)) = .ok (alphabet, rest) ∧
    let moves : List Move := [.push ⟨.negativeSet, "C", "X", 0, 1⟩,
      .push ⟨.unification, "C", "Y", 0, 2⟩, .push ⟨.require, "C", "X", 0, 1⟩, .pop, .pop, .pop]
    (Stack.ofSize alphabet.featureCount).trace moves =
      [⟨some true, 1, #[-1]⟩, ⟨some true, 2, #[2]⟩, ⟨some false, 2, #[2]⟩, ⟨none, 1, #[-1]⟩,
        ⟨none, 0, #[0]⟩, ⟨none, 0, #[0]⟩] ∧
    alphabet.Numbered ∧ (Stack.ofSize alphabet.featureCount).trace moves =
      Environments.unbound.trace alphabet.encode moves := by
  have looked : ((Alphabet.read (4 : UInt16).toNat).run (.ofBytes
      (["", "@N.C.X@", "@U.C.Y@", "@R.C.X@"].flatMap fun text =>
        Alphabet.terminated text.toList))).toOption.map (fun (alphabet, _) =>
      (alphabet.featureCount, [1, 2, 3].map alphabet.operation?)) =
      some (1, [some ⟨.negativeSet, "C", "X", 0, 1⟩, some ⟨.unification, "C", "Y", 0, 2⟩,
        some ⟨.require, "C", "X", 0, 1⟩]) := by
    decide +kernel
  obtain ⟨⟨alphabet, rest⟩, parsed, view⟩ := exists_ok_of_map looked
  obtain ⟨featureCount, operations⟩ := Prod.mk.inj view
  obtain ⟨first, operations⟩ := List.cons.inj operations
  obtain ⟨second, operations⟩ := List.cons.inj operations
  obtain ⟨third, -⟩ := List.cons.inj operations
  refine ⟨alphabet, rest, parsed, ?_, trace_ofSize parsed fun operation mem => ?_⟩
  · rw [featureCount]
    decide
  · simp only [List.mem_cons, Move.push.injEq, reduceCtorEq, List.not_mem_nil, or_false] at mem
    rcases mem with rfl | rfl | rfl
    · exact ⟨1, first⟩
    · exact ⟨2, second⟩
    · exact ⟨3, third⟩

end Flag

end OptimizedLookup
