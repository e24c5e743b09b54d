import OptimizedLookup.Transducer

/-! Loaders by the bytes they read. A loader reads a grammar if it succeeds exactly where the front
of what its source holds is in the grammar, with the value the grammar gives, and leaves the rest.
Loaders that are put together read the grammars put together. -/
namespace OptimizedLookup

theorem exists_ok_of_map {ε α β : Type} {result : Except ε α} {view : α → β} {seen : β}
    (viewed : result.toOption.map view = some seen) :
    ∃ value, result = .ok value ∧ view value = seen := by
  cases result with
  | error error => contradiction
  | ok value => exact ⟨value, rfl, Option.some.inj viewed⟩

theorem toOption_isSome_iff {ε α : Type} {result : Except ε α} :
    result.toOption.isSome = true ↔ ∃ value, result = .ok value := by
  cases result with
  | error error => exact ⟨nofun, nofun⟩
  | ok value => exact ⟨fun _ => ⟨value, rfl⟩, fun _ => rfl⟩

def Demand.Meets : Demand → List UInt8 → Prop
  | .exactly count, bytes => bytes.length = count
  | .throughNul, bytes => ∃ body, bytes = body ++ [0] ∧ 0 ∉ body

namespace Demand

theorem meets_nil_iff {demand : Demand} : demand.Meets [] ↔ demand.met = true := by
  cases demand with
  | exactly count => cases count <;> simp [Meets, met]
  | throughNul => simp [Meets, met]

theorem meets_cons_iff {demand : Demand} {byte : UInt8} {bytes : List UInt8} :
    demand.Meets (byte :: bytes) ↔ demand.met = false ∧ (demand.after byte).Meets bytes := by
  cases demand with
  | exactly count =>
    cases count with
    | zero => simp [Meets, met]
    | succ count => simp [Meets, met, after]
  | throughNul =>
    simp only [Meets, met, after, true_and]
    by_cases nul : byte = 0
    · simp only [nul, if_true, List.length_eq_zero_iff]
      constructor
      · rintro ⟨body, same, clean⟩
        cases body with
        | nil => exact (List.cons.inj same).2
        | cons first body =>
          rw [← (List.cons.inj same).1] at clean
          exact absurd List.mem_cons_self clean
      · rintro rfl
        exact ⟨[], rfl, List.not_mem_nil⟩
    · simp only [nul, if_false]
      constructor
      · rintro ⟨body, same, clean⟩
        cases body with
        | nil => exact absurd (List.cons.inj same).1 nul
        | cons first body =>
          exact ⟨body, (List.cons.inj same).2, fun mem => clean (List.mem_cons_of_mem _ mem)⟩
      · rintro ⟨body, rfl, clean⟩
        exact ⟨byte :: body, rfl, by simp [Ne.symm nul, clean]⟩

theorem draw_of_meets {demand : Demand} {used : List UInt8} (meets : demand.Meets used)
    (taken more : List UInt8) :
    ∃ left, demand.draw taken (used ++ more) = (left, used.reverse ++ taken, more) ∧
      left.met = true := by
  induction used generalizing demand taken with
  | nil =>
    have met := meets_nil_iff.mp meets
    cases more with
    | nil => exact ⟨demand, rfl, met⟩
    | cons byte more => exact ⟨demand, by simp [draw, met], met⟩
  | cons byte used ih =>
    obtain ⟨unmet, rest⟩ := meets_cons_iff.mp meets
    obtain ⟨left, drawn, met⟩ := ih rest (byte :: taken)
    refine ⟨left, ?_, met⟩
    rw [List.cons_append, draw, unmet, if_neg Bool.false_ne_true, drawn]
    simp

theorem meets_of_draw {demand left : Demand} {taken bytes moved unread : List UInt8}
    (drawn : demand.draw taken bytes = (left, moved, unread)) (met : left.met = true) :
    ∃ used, bytes = used ++ unread ∧ moved = used.reverse ++ taken ∧ demand.Meets used := by
  induction bytes generalizing demand taken with
  | nil =>
    cases drawn
    exact ⟨[], rfl, rfl, meets_nil_iff.mpr met⟩
  | cons byte bytes ih =>
    rw [draw] at drawn
    by_cases done : demand.met = true
    · rw [if_pos done] at drawn
      cases drawn
      exact ⟨[], rfl, rfl, meets_nil_iff.mpr done⟩
    · rw [if_neg done] at drawn
      obtain ⟨used, rfl, rfl, meets⟩ := ih drawn
      exact ⟨byte :: used, rfl, by simp, meets_cons_iff.mpr ⟨eq_false_of_ne_true done, meets⟩⟩

end Demand

theorem Source.contents_ofBytes (bytes : List UInt8) : (Source.ofBytes bytes).contents = bytes :=
  List.append_nil bytes

theorem Source.read_of_draw {source : Source} {demand left : Demand} {moved unread : List UInt8}
    (drawn : demand.draw [] source.contents = (left, moved, unread)) :
    if left.met then
      ∃ rest, source.read demand = .ok (moved.reverse, rest) ∧ rest.contents = unread ∧
        rest.ending = source.ending
    else source.read demand = .error source.ending :=
  readFrom_eq_draw drawn

namespace Loader

/-- The loader gives a value for the bytes in the grammar, whatever follows them, and for no
others. -/
structure Reads {α : Type} (loader : Loader α) (grammar : List UInt8 → α → Prop) : Prop where
  sound : ∀ {source rest : Source} {value : α}, loader.run source = .ok (value, rest) →
    ∃ used, source.contents = used ++ rest.contents ∧ grammar used value
  complete : ∀ {source : Source} {used more : List UInt8} {value : α},
    source.contents = used ++ more → grammar used value →
    ∃ rest, loader.run source = .ok (value, rest) ∧ rest.contents = more

variable {α β : Type}

theorem bind_eq_ok_iff {loader : Loader α} {next : α → Loader β} {source : Source}
    {result : β × Source} :
    (loader >>= next).run source = .ok result ↔
      ∃ value rest, loader.run source = .ok (value, rest) ∧
        (next value).run rest = .ok result := by
  rw [StateT.run_bind]
  cases loader.run source with
  | error error => exact ⟨nofun, nofun⟩
  | ok first =>
    constructor
    · exact fun same => ⟨first.1, first.2, rfl, same⟩
    · rintro ⟨value, rest, same, done⟩
      cases same
      exact done

theorem run_bind_of_ok {loader : Loader α} {source after : Source} {next : α → Loader β} {value : α}
    (found : loader.run source = .ok (value, after)) :
    (loader >>= next).run source = (next value).run after := by
  rw [StateT.run_bind, found]
  rfl

theorem run_bind_of_error {loader : Loader α} {source : Source} (next : α → Loader β)
    {error : LoadError} (failed : loader.run source = .error error) :
    (loader >>= next).run source = .error error := by
  rw [StateT.run_bind, failed]
  rfl

theorem run_bind_congr {loader other : Loader α} {source start : Source}
    (same : loader.run source = other.run start) (next : α → Loader β) :
    (loader >>= next).run source = (other >>= next).run start := by
  rw [StateT.run_bind, StateT.run_bind, same]

theorem reads_pure (value : α) :
    (pure value : Loader α).Reads fun used result => used = [] ∧ result = value where
  sound same := by
    cases same
    exact ⟨[], rfl, rfl, rfl⟩
  complete := by
    rintro source used more result split ⟨rfl, rfl⟩
    exact ⟨source, rfl, split⟩

theorem Reads.congr {loader : Loader α} {grammar other : List UInt8 → α → Prop}
    (reads : loader.Reads grammar) (same : ∀ used value, grammar used value ↔ other used value) :
    loader.Reads other where
  sound found := by
    obtain ⟨used, split, inGrammar⟩ := reads.sound found
    exact ⟨used, split, (same used _).mp inGrammar⟩
  complete split inOther := reads.complete split ((same _ _).mpr inOther)

theorem reads_throw (error : LoadError) :
    (throw error : Loader α).Reads fun _ _ => False where
  sound same := by contradiction
  complete _ inGrammar := by contradiction

theorem reads_throw_bind (error : LoadError) (next : α → Loader β) :
    (throw error >>= next : Loader β).Reads fun _ _ => False where
  sound same := by
    obtain ⟨_, _, thrown, -⟩ := bind_eq_ok_iff.mp same
    contradiction
  complete _ inGrammar := by contradiction

theorem reads_liftM (result : Except LoadError α) :
    (liftM result : Loader α).Reads fun used value => used = [] ∧ result = .ok value := by
  cases result with
  | error error => exact (reads_throw error).congr (by simp)
  | ok value => exact (reads_pure value).congr (by simp [eq_comm])

theorem Reads.bind {loader : Loader α} {next : α → Loader β}
    {first : List UInt8 → α → Prop} {second : α → List UInt8 → β → Prop}
    (reads : loader.Reads first) (readsNext : ∀ value, (next value).Reads (second value)) :
    (loader >>= next).Reads fun used result => ∃ front back value,
      used = front ++ back ∧ first front value ∧ second value back result where
  sound := by
    intro source rest result same
    obtain ⟨value, middle, firstSame, secondSame⟩ := bind_eq_ok_iff.mp same
    obtain ⟨front, split, inFirst⟩ := reads.sound firstSame
    obtain ⟨back, splitRest, inSecond⟩ := (readsNext value).sound secondSame
    rw [splitRest, ← List.append_assoc] at split
    exact ⟨front ++ back, split, front, back, value, rfl, inFirst, inSecond⟩
  complete := by
    rintro source used more result split ⟨front, back, value, rfl, inFirst, inSecond⟩
    rw [List.append_assoc] at split
    obtain ⟨middle, firstSame, splitRest⟩ := reads.complete split inFirst
    obtain ⟨rest, secondSame, ends⟩ := (readsNext value).complete splitRest inSecond
    exact ⟨rest, bind_eq_ok_iff.mpr ⟨value, middle, firstSame, secondSame⟩, ends⟩

theorem Reads.map {loader : Loader α} {grammar : List UInt8 → α → Prop}
    (reads : loader.Reads grammar) (make : α → β) :
    (loader >>= fun value => pure (make value)).Reads fun used result =>
      ∃ value, grammar used value ∧ result = make value := by
  refine (reads.bind fun value => reads_pure (make value)).congr fun used result => ?_
  constructor
  · rintro ⟨front, _, value, rfl, inGrammar, rfl, same⟩
    exact ⟨value, (List.append_nil front).symm ▸ inGrammar, same⟩
  · rintro ⟨value, inGrammar, same⟩
    exact ⟨used, [], value, (List.append_nil used).symm, inGrammar, rfl, same⟩

theorem Reads.ite {condition : Prop} [Decidable condition] {yes no : Loader α}
    {first second : List UInt8 → α → Prop} (reads : yes.Reads first) (readsElse : no.Reads second) :
    (if condition then yes else no).Reads fun used value =>
      if condition then first used value else second used value := by
  by_cases holds : condition
  · simpa only [if_pos holds] using reads
  · simpa only [if_neg holds] using readsElse

theorem reads_read (part : Section) (demand : Demand) :
    (Loader.read part demand).Reads fun used value => value = used ∧ demand.Meets used where
  sound := by
    intro source rest value same
    generalize drawn : demand.draw [] source.contents = result
    obtain ⟨left, moved, unread⟩ := result
    have outcome := Source.read_of_draw drawn
    change Loader.read part demand source = _ at same
    unfold Loader.read at same
    split at outcome
    · next met =>
      obtain ⟨after, found, contents, -⟩ := outcome
      rw [found] at same
      cases same
      obtain ⟨used, split, rfl, meets⟩ := Demand.meets_of_draw drawn met
      refine ⟨used, by rw [split, contents], ?_, meets⟩
      simp
    · rw [outcome] at same
      contradiction
  complete := by
    rintro source used more value split ⟨rfl, meets⟩
    obtain ⟨left, drawn, met⟩ := Demand.draw_of_meets meets [] more
    rw [← split] at drawn
    have outcome := Source.read_of_draw drawn
    rw [if_pos met] at outcome
    obtain ⟨after, found, contents, -⟩ := outcome
    refine ⟨after, ?_, contents⟩
    change Loader.read part demand source = _
    unfold Loader.read
    rw [found]
    simp

theorem reads_exactly (part : Section) (count : Nat) (make : List UInt8 → α) :
    (Loader.read part (.exactly count) >>= fun bytes => pure (make bytes)).Reads
      fun used value => used.length = count ∧ value = make used := by
  refine ((reads_read part (.exactly count)).map make).congr fun used value => ?_
  constructor
  · rintro ⟨_, ⟨rfl, length⟩, same⟩
    exact ⟨length, same⟩
  · rintro ⟨length, same⟩
    exact ⟨used, ⟨rfl, length⟩, same⟩

end Loader

end OptimizedLookup
