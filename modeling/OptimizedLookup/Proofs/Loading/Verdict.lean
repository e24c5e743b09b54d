import OptimizedLookup.Proofs.Loading.Layout

/-! What bytes come to. A loader finds a value at the front of the bytes, or a flaw that no further
bytes can mend, or it runs short inside a section. Which of the three does not depend on the pieces
in which the bytes come, and only a loader that runs short learns how its source ends. -/
namespace OptimizedLookup

inductive Verdict (α : Type) where
  | found (value : α) (rest : List UInt8)
  | flawed (error : FormatError)
  | short (part : Section)

def Verdict.followedBy {α : Type} (more : List UInt8) : Verdict α → Verdict α
  | .found value rest => .found value (rest ++ more)
  | .flawed error => .flawed error
  | .short part => .short part

def Verdict.report {α : Type} (ending : Ending) : Verdict α → Except LoadError α
  | .found value _ => .ok value
  | .flawed error => .error (.format error)
  | .short part => .error (ending.toLoadError part)

def Verdict.Stands {α : Type} (more : List UInt8) : Verdict α → Prop
  | .short _ => more = []
  | _ => True

theorem Verdict.stands_nil {α : Type} (verdict : Verdict α) : verdict.Stands [] := by
  cases verdict <;> trivial

namespace Loader

variable {α β : Type} {loader : Loader α} {source : Source}

/-- The loader does at the source what the verdict says. The ending of the source is kept for what
is read later, and is asked only where the bytes run short. -/
def Gives (loader : Loader α) (source : Source) : Verdict α → Prop
  | .found value rest => ∃ after, loader.run source = .ok (value, after) ∧
      after.contents = rest ∧ after.ending = source.ending
  | .flawed error => loader.run source = .error (.format error)
  | .short part => loader.run source = .error (source.ending.toLoadError part)

/-- The loader goes by the bytes: each list of bytes has its verdict, whatever the source. -/
def Steady (loader : Loader α) : Prop :=
  ∀ bytes, ∃ verdict : Verdict α, ∀ source more, source.contents = bytes ++ more →
    verdict.Stands more → loader.Gives source (verdict.followedBy more)

theorem Gives.bind {next : α → Loader β} {value : α} {after : Source} {verdict : Verdict β}
    (found : loader.run source = .ok (value, after)) (kept : after.ending = source.ending)
    (gives : (next value).Gives after verdict) : (loader >>= next).Gives source verdict := by
  cases verdict with
  | found result rest =>
    obtain ⟨last, same, contents, ending⟩ := gives
    exact ⟨last, (run_bind_of_ok found).trans same, contents, ending.trans kept⟩
  | flawed error => exact (run_bind_of_ok found).trans gives
  | short part =>
    change _ = Except.error (source.ending.toLoadError part)
    rw [← kept]
    exact (run_bind_of_ok found).trans gives

theorem steady_pure (value : α) : (pure value : Loader α).Steady := fun bytes =>
  ⟨.found value bytes, fun source _ contents _ => ⟨source, rfl, contents, rfl⟩⟩

theorem steady_throw (error : FormatError) : (throw (.format error) : Loader α).Steady :=
  fun _ => ⟨.flawed error, fun _ _ _ _ => rfl⟩

theorem gives_read (part : Section) {demand left : Demand} {moved unread : List UInt8}
    (drawn : demand.draw [] source.contents = (left, moved, unread)) :
    (Loader.read part demand).Gives source
      (if left.met then .found moved.reverse unread else .short part) := by
  have outcome := Source.read_of_draw drawn
  by_cases met : left.met = true
  · rw [if_pos met] at outcome ⊢
    obtain ⟨after, found, rest, ending⟩ := outcome
    refine ⟨after, ?_, rest, ending⟩
    change Loader.read part demand source = _
    rw [Loader.read, found]
  · rw [if_neg met] at outcome ⊢
    change Loader.read part demand source = _
    rw [Loader.read, outcome]

theorem steady_read (part : Section) (demand : Demand) : (Loader.read part demand).Steady := by
  intro bytes
  generalize drawn : demand.draw [] bytes = result
  obtain ⟨left, moved, unread⟩ := result
  by_cases met : left.met = true
  · refine ⟨.found moved.reverse unread, fun source more contents _ => ?_⟩
    have drawnAll := Demand.draw_append drawn more
    rw [if_pos met, ← contents] at drawnAll
    have given := gives_read part drawnAll
    rwa [if_pos met] at given
  · refine ⟨.short part, ?_⟩
    rintro source _ contents rfl
    rw [List.append_nil] at contents
    rw [← contents] at drawn
    have given := gives_read part drawn
    rwa [if_neg met] at given

theorem Steady.bind {next : α → Loader β} (steady : loader.Steady)
    (steadyNext : ∀ value, (next value).Steady) : (loader >>= next).Steady := by
  intro bytes
  obtain ⟨verdict, gives⟩ := steady bytes
  cases verdict with
  | found value rest =>
    obtain ⟨second, givesNext⟩ := steadyNext value rest
    refine ⟨second, fun source more contents stands => ?_⟩
    obtain ⟨after, found, left, ending⟩ := gives source more contents trivial
    exact .bind found ending (givesNext after more left stands)
  | flawed error =>
    exact ⟨.flawed error, fun source more contents stands =>
      run_bind_of_error next (gives source more contents stands)⟩
  | short part =>
    exact ⟨.short part, fun source more contents stands =>
      run_bind_of_error next (gives source more contents stands)⟩

theorem Steady.ite {condition : Prop} [Decidable condition] {yes no : Loader α}
    (steady : yes.Steady) (steadyElse : no.Steady) : (if condition then yes else no).Steady := by
  by_cases holds : condition
  · rwa [if_pos holds]
  · rwa [if_neg holds]

end Loader

namespace Header

theorem steady_checked (header : Header) : (liftM header.checked : Loader Header).Steady := by
  unfold checked
  cases header.defect? with
  | none => exact Loader.steady_pure header
  | some defect => exact Loader.steady_throw defect

theorem steady_readPreamble : readPreamble.Steady := by
  have byte : (Loader.readByte .headerPreamble).Steady :=
    (Loader.steady_read _ _).bind fun _ => Loader.steady_pure _
  refine (Loader.steady_read _ _).bind fun _ => byte.bind fun _ => ?_
  have refused := Loader.steady_throw (α := PUnit)
  exact ((refused _).bind fun _ => (Loader.steady_read _ _).bind fun _ =>
    Loader.steady_pure _).ite ((Loader.steady_read _ _).bind fun _ => Loader.steady_pure _)

theorem steady_read : Header.read.Steady := by
  have preceded := steady_readPreamble.bind fun metadata =>
    (Loader.steady_read .header (.exactly fixedLength)).bind fun block =>
      steady_checked (ofBlock block (fixedLength + preambleLength + metadata))
  exact (Loader.steady_read _ _).bind fun _ =>
    preceded.ite ((Loader.steady_read _ _).bind fun _ => steady_checked _)

end Header

namespace Alphabet

theorem Draft.steady_read (draft : Draft) (count : Nat) : (draft.read count).Steady := by
  induction count generalizing draft with
  | zero => exact Loader.steady_pure draft
  | succ count ih =>
    have onward (bytes : List UInt8) : (resume count (draft.addBytes bytes)).Steady := by
      cases draft.addBytes bytes with
      | error error => exact Loader.steady_throw error
      | ok next => exact ih next
    exact (Loader.steady_read _ _).bind onward

theorem steady_read (count : Nat) : (Alphabet.read count).Steady :=
  (Draft.steady_read {} count).bind fun draft => Loader.steady_pure draft.finish

end Alphabet

/-- The error of a result that has one; it can be compared where the values cannot. -/
def failure? {ε α : Type} : Except ε α → Option ε
  | .error error => some error
  | .ok _ => none

theorem failure?_eq_some_iff {ε α : Type} {result : Except ε α} {error : ε} :
    failure? result = some error ↔ result = .error error := by
  cases result <;> simp [failure?]

namespace Transducer

theorem steady_read : Transducer.read.Steady :=
  Header.steady_read.bind fun header => (Alphabet.steady_read header.symbols.toNat).bind fun _ =>
    ((Loader.steady_read _ _).bind fun _ => Loader.steady_pure _).bind fun _ =>
      ((Loader.steady_read _ _).bind fun _ => Loader.steady_pure _).bind fun _ =>
        Loader.steady_pure _

/-- All that a source adds to its bytes is the report of where they run short. -/
theorem load_reports (bytes : List UInt8) : ∃ verdict : Verdict Transducer,
    (∀ source, source.contents = bytes → load source = verdict.report source.ending) ∧
      ∀ more, verdict.Stands more → ofBytes (bytes ++ more) = verdict.report .finished := by
  obtain ⟨verdict, gives⟩ := steady_read bytes
  have reports (source : Source) (more : List UInt8) (contents : source.contents = bytes ++ more)
      (stands : verdict.Stands more) : load source = verdict.report source.ending := by
    have given := gives source more contents stands
    cases verdict with
    | found transducer rest =>
      obtain ⟨after, found, -, -⟩ := given
      rw [load, found]
      rfl
    | flawed error =>
      have failed : read.run source = .error (.format error) := given
      rw [load, failed]
      rfl
    | short part =>
      have failed : read.run source = .error (source.ending.toLoadError part) := given
      rw [load, failed]
      rfl
  refine ⟨verdict, fun source contents => ?_, fun more => ?_⟩
  · exact reports source [] (contents.trans (List.append_nil _).symm) verdict.stands_nil
  · exact reports (.ofBytes (bytes ++ more)) more (Source.contents_ofBytes _)

/-- A source that finishes gives what its bytes give, in whatever pieces they come and however often
it is interrupted. One that fails gives the same where the bytes it delivered are enough to tell,
and otherwise its fault, unless the fault only says that the bytes are at an end. -/
theorem load_eq_ofBytes (bytes : List UInt8) :
    (∀ source : Source, source.contents = bytes → source.ending = .finished →
      load source = ofBytes bytes) ∧
    ∀ received ≤ bytes.length, ∀ (source : Source) (fault : IoFault),
      source.contents = bytes.take received → source.ending = .failed fault →
      ((∀ part, ofBytes (bytes.take received) ≠ .error (.endOfStream part)) →
        load source = ofBytes (bytes.take received)) ∧
      ∀ part, ofBytes (bytes.take received) = .error (.endOfStream part) →
        (fault.kind = .unexpectedEnd → load source = .error (.endOfStream part)) ∧
        (fault.kind ≠ .unexpectedEnd → load source = .error (.io fault)) := by
  refine ⟨fun source contents finished => ?_, fun received _ source fault contents failed => ?_⟩
  · obtain ⟨verdict, reports, -⟩ := load_reports bytes
    rw [reports source contents, finished]
    exact (reports (.ofBytes bytes) (Source.contents_ofBytes bytes)).symm
  · obtain ⟨verdict, reports, -⟩ := load_reports (bytes.take received)
    have inMemory := reports (.ofBytes (bytes.take received)) (Source.contents_ofBytes _)
    change ofBytes _ = verdict.report .finished at inMemory
    rw [reports source contents, failed, inMemory]
    cases verdict with
    | found transducer rest => exact ⟨fun _ => rfl, nofun⟩
    | flawed error => exact ⟨fun _ => rfl, nofun⟩
    | short part =>
      refine ⟨fun settled => absurd rfl (settled part), ?_⟩
      rintro _ ⟨⟩
      exact ⟨fun atEnd => congrArg Except.error (if_pos atEnd),
        fun other => congrArg Except.error (if_neg other)⟩

theorem load_eq_ofBytes_twoPaths : ∃ transducer : Transducer,
    let bytes := Layout.twoPaths.bytes
    let denied : IoFault := ⟨.named "PermissionDenied", "injected failure"⟩
    let ended : IoFault := ⟨.unexpectedEnd, "injected failure"⟩
    ofBytes bytes = .ok transducer ∧
    load ⟨[], [.interrupted, .piece (bytes.take 7), .interrupted, .piece (bytes.drop 7)],
      .finished⟩ = .ok transducer ∧
    load ⟨[], [.piece bytes], .failed denied⟩ = .ok transducer ∧
    load ⟨[], [.piece (bytes.take 60)], .failed denied⟩ = .error (.io denied) ∧
    load ⟨[], [.piece (bytes.take 60)], .failed ended⟩ = .error (.endOfStream .alphabet) := by
  obtain ⟨transducer, loaded⟩ : ∃ transducer, ofBytes Layout.twoPaths.bytes = .ok transducer :=
    toOption_isSome_iff.mp (by decide +kernel)
  have cut : ofBytes (Layout.twoPaths.bytes.take 60) = .error (.endOfStream .alphabet) :=
    failure?_eq_some_iff.mp (by decide +kernel)
  have whole : Layout.twoPaths.bytes.take 133 = Layout.twoPaths.bytes := by decide +kernel
  obtain ⟨finishes, fails⟩ := load_eq_ofBytes Layout.twoPaths.bytes
  refine ⟨transducer, loaded, (finishes _ (by decide +kernel) rfl).trans loaded, ?_, ?_, ?_⟩
  · have enough := (fails 133 (by decide +kernel) ⟨[], [.piece Layout.twoPaths.bytes], .failed _⟩
      ⟨.named "PermissionDenied", "injected failure"⟩ (by decide +kernel) rfl).1
    rw [whole, loaded] at enough
    exact enough nofun
  · exact ((fails 60 (by decide +kernel) _ _ (by decide +kernel) rfl).2 _ cut).2 (by decide)
  · exact ((fails 60 (by decide +kernel) _ _ (by decide +kernel) rfl).2 _ cut).1 rfl

end Transducer

end OptimizedLookup
