import OptimizedLookup.Proofs.Loading.Layout
import OptimizedLookup.Proofs.Path.Search
import OptimizedLookup.Proofs.Tokenizer.Segmentation

/-! What looking up a word returns, in terms of the paths of its tokens: either some path reaches
the depth limit, and then there is nothing but the error, or the analyses are those of all
accepting paths, each once and in the order of paths. -/
namespace OptimizedLookup.Transducer

variable {source : Source} {transducer : Transducer} {word : String} {config : Config}
  {uniqueBy : UniqueBy} {tokens : List Symbol}

theorem no_tokens_or_exists (transducer : Transducer) (word : String) :
    (word = "" ∨ transducer.tokenize word = none) ∨
      ∃ tokens, transducer.tokenize word = some tokens ∧ tokens ≠ [] := by
  cases split : transducer.tokenize word with
  | none => exact .inl (.inr rfl)
  | some tokens =>
    by_cases empty : tokens = []
    · exact .inl (.inl (LetterTrie.tokenize_eq_nil_iff.mp (empty ▸ split)))
    · exact .inr ⟨tokens, rfl, empty⟩

theorem analyze_of_no_tokens (none : word = "" ∨ transducer.tokenize word = none) :
    transducer.analyze word config uniqueBy = .ok [] := by
  unfold analyze
  rcases none with empty | untokenizable
  · rw [tokenize, LetterTrie.tokenize_eq_nil_iff.mpr empty]
  · rw [untokenizable]

def listedOf (transducer : Transducer) (level : Nat) (tokens : List Symbol) :
    List (List Nat × Analysis) :=
  (transducer.listing level (transducer.origin tokens)).map fun (path, final) =>
    (path, transducer.analysisOf path final)

theorem analyze_eq (split : transducer.tokenize word = some tokens) (nonempty : tokens ≠ []) :
    transducer.analyze word config uniqueBy =
      if transducer.overruns config.maxDepth (transducer.origin tokens) then
        .error ⟨config.maxDepth⟩
      else
        let analyses := (transducer.listedOf config.maxDepth tokens).map Prod.snd
        .ok (if config.deduplicate then uniqueBy Analysis.key analyses else analyses) := by
  cases tokens with
  | nil => contradiction
  | cons token tokens =>
    unfold analyze
    rw [split]
    dsimp only
    rw [search_eq]
    by_cases overruns : transducer.overruns config.maxDepth (transducer.origin (token :: tokens))
    · rw [if_pos overruns, if_pos overruns]
      rfl
    · rw [if_neg overruns, if_neg overruns, listedOf, List.map_map]
      rfl

theorem analyze_eq_ok_iff (split : transducer.tokenize word = some tokens)
    (nonempty : tokens ≠ []) {analyses : List Analysis} :
    transducer.analyze word config uniqueBy = .ok analyses ↔
      transducer.overruns config.maxDepth (transducer.origin tokens) = false ∧
        analyses =
          let all := (transducer.listedOf config.maxDepth tokens).map Prod.snd
          if config.deduplicate then uniqueBy Analysis.key all else all := by
  rw [analyze_eq split nonempty]
  cases transducer.overruns config.maxDepth (transducer.origin tokens) with
  | true => exact ⟨nofun, nofun⟩
  | false =>
    constructor
    · intro found
      exact ⟨rfl, (Except.ok.inj found).symm⟩
    · rintro ⟨-, rfl⟩
      rfl

/-- Lookup gives up exactly if some path, accepting or not, has as many records as the limit
allows, and in every other case it gives analyses. -/
theorem analyze_exceeds_iff (split : transducer.tokenize word = some tokens)
    (nonempty : tokens ≠ []) (config : Config) (uniqueBy : UniqueBy) :
    (transducer.analyze word config uniqueBy = .error ⟨config.maxDepth⟩ ↔
      ∃ path last, transducer.Follows (transducer.origin tokens) path last ∧
        config.maxDepth ≤ path.length) ∧
    ((∃ analyses, transducer.analyze word config uniqueBy = .ok analyses) ↔
      ¬ ∃ path last, transducer.Follows (transducer.origin tokens) path last ∧
        config.maxDepth ≤ path.length) := by
  rw [← overruns_iff_le, analyze_eq split nonempty]
  cases transducer.overruns config.maxDepth (transducer.origin tokens) with
  | true => simp
  | false => simp

theorem analyze_exceeds_twoPaths : ∃ transducer : Transducer,
    ofBytes Layout.twoPaths.bytes = .ok transducer ∧ transducer.tokenize "a" = some [1] ∧
    transducer.analyze "a" { maxDepth := 2 } = .error ⟨2⟩ ∧
    (∃ path last, transducer.Follows (transducer.origin [1]) path last ∧ 2 ≤ path.length) ∧
    ¬ ∃ path last, transducer.Follows (transducer.origin [1]) path last ∧ 3 ≤ path.length := by
  have looked : (ofBytes Layout.twoPaths.bytes).toOption.map (fun transducer =>
      (transducer.tokenize "a", (transducer.analyze "a" { maxDepth := 2 }).toOption.isSome,
        (transducer.analyze "a" { maxDepth := 3 }).toOption.isSome)) =
      some (some [1], false, true) := by
    decide +kernel
  obtain ⟨transducer, loaded, view⟩ := exists_ok_of_map looked
  obtain ⟨split, outcomes⟩ := Prod.mk.inj view
  obtain ⟨two, three⟩ := Prod.mk.inj outcomes
  obtain ⟨gaveUp, given⟩ :=
    analyze_exceeds_iff split (List.cons_ne_nil 1 []) { maxDepth := 2 } .inOrder
  have long : ∃ path last, transducer.Follows (transducer.origin [1]) path last ∧
      2 ≤ path.length := by
    refine Classical.byContradiction fun none => ?_
    rw [toOption_isSome_iff.mpr (given.mpr none)] at two
    exact Bool.noConfusion two
  exact ⟨transducer, loaded, split, gaveUp.mpr long, long,
    (analyze_exceeds_iff split (List.cons_ne_nil 1 []) { maxDepth := 3 } .inOrder).2.mp
      (toOption_isSome_iff.mp three)⟩

theorem mem_listing_iff_of_not_overruns {level : Nat}
    (short : transducer.overruns level (transducer.origin tokens) = false) {path : List Nat}
    {analysis : Analysis} :
    (path, analysis) ∈ transducer.listedOf level tokens ↔
      transducer.Accepts tokens path analysis := by
  have within (path : List Nat) (last : Point)
      (follows : transducer.Follows (transducer.origin tokens) path last) : path.length < level := by
    apply Nat.lt_of_not_le
    intro long
    rw [overruns_iff_le.mpr ⟨path, last, follows, long⟩] at short
    contradiction
  rw [listedOf, List.mem_map]
  constructor
  · rintro ⟨⟨_, final⟩, mem, pair⟩
    cases pair
    obtain ⟨-, last, follows, consumed, ends⟩ := mem_listing.mp mem
    exact ⟨last, final, follows, consumed, ends, rfl⟩
  · rintro ⟨last, final, follows, consumed, ends, rfl⟩
    exact ⟨(path, final),
      mem_listing.mpr ⟨within path last follows, last, follows, consumed, ends⟩, rfl⟩

/-- The analyses of a word without any dropped are those of its accepting paths, each path once and
in the order of paths. -/
theorem analyze_lists_paths (loaded : load source = .ok transducer)
    (keep : config.deduplicate = false) :
    (word = "" ∨ transducer.tokenize word = none →
      transducer.analyze word config uniqueBy = .ok []) ∧
    ∀ tokens analyses, word ≠ "" → transducer.tokenize word = some tokens →
      transducer.analyze word config uniqueBy = .ok analyses →
      ∃ listed : List (List Nat × Analysis), listed.map Prod.snd = analyses ∧
        (∀ path analysis, (path, analysis) ∈ listed ↔ transducer.Accepts tokens path analysis) ∧
        (listed.map Prod.fst).Nodup ∧ (listed.map Prod.fst).Pairwise transducer.Before := by
  refine ⟨analyze_of_no_tokens, fun tokens analyses proper split found => ?_⟩
  have nonempty : tokens ≠ [] := by
    rintro rfl
    exact proper (LetterTrie.tokenize_eq_nil_iff.mp split)
  obtain ⟨short, rfl⟩ := (analyze_eq_ok_iff split nonempty).mp found
  have ordered : ((transducer.listedOf config.maxDepth tokens).map Prod.fst).Pairwise
      transducer.Before := by
    rw [listedOf, List.map_map, List.pairwise_map]
    exact pairwise_listing (literal_of_load loaded split)
  refine ⟨transducer.listedOf config.maxDepth tokens, ?_,
    fun path analysis => mem_listing_iff_of_not_overruns short, ?_, ordered⟩
  · rw [keep]
    rfl
  · apply ordered.imp
    intro left right before same
    rw [same] at before
    exact transducer.before_irrefl right before

theorem analyze_lists_twoPaths : ∃ (transducer : Transducer) (analyses : List Analysis),
    load (.ofBytes Layout.twoPaths.bytes) = .ok transducer ∧
    transducer.tokenize "a" = some [1] ∧ transducer.analyze "a" = .ok analyses ∧
    analyses.map Analysis.output = ["a", "a"] ∧
    ∃ listed : List (List Nat × Analysis), listed.map Prod.snd = analyses ∧
      (∀ path analysis, (path, analysis) ∈ listed ↔ transducer.Accepts [1] path analysis) ∧
      (listed.map Prod.fst).Nodup ∧ (listed.map Prod.fst).Pairwise transducer.Before := by
  have looked : (ofBytes Layout.twoPaths.bytes).toOption.map (fun transducer =>
      (transducer.tokenize "a",
        (transducer.analyze "a").toOption.map fun analyses => analyses.map Analysis.output)) =
      some (some [1], some ["a", "a"]) := by
    decide +kernel
  obtain ⟨transducer, loaded, view⟩ := exists_ok_of_map looked
  obtain ⟨split, outputs⟩ := Prod.mk.inj view
  obtain ⟨analyses, found, printed⟩ := exists_ok_of_map outputs
  exact ⟨transducer, analyses, loaded, split, found, printed,
    (analyze_lists_paths loaded rfl).2 [1] analyses (by decide) split found⟩

end OptimizedLookup.Transducer
