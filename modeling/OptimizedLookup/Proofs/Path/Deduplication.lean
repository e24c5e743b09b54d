import Mathlib.Data.List.Induction
import OptimizedLookup.Lookup
import OptimizedLookup.Proofs.Alphabet.Interning
import OptimizedLookup.Proofs.Loading.Layout

/-! Lookup that drops what was found before. All that is known of the function that drops it is what
it does with one more item. Of the analyses that are alike it then keeps the first one and no other,
and the analyses that it keeps stay in their order. -/
namespace OptimizedLookup

/-- One more item is left out if an item with its key was let through before it, and let through
otherwise. -/
structure UniqueBy.Lawful (uniqueBy : UniqueBy) : Prop where
  nil : ∀ key, uniqueBy key [] = []
  known : ∀ key items item, key item ∈ (uniqueBy key items).map key →
    uniqueBy key (items ++ [item]) = uniqueBy key items
  fresh : ∀ key items item, key item ∉ (uniqueBy key items).map key →
    uniqueBy key (items ++ [item]) = uniqueBy key items ++ [item]

theorem UniqueBy.lawful_inOrder : UniqueBy.inOrder.Lawful where
  nil _ := rfl
  known key items item met := by
    rw [inOrder, List.foldl_append]
    exact if_pos met
  fresh key items item new := by
    rw [inOrder, List.foldl_append]
    exact if_neg new

namespace Analysis

def Alike (left right : Analysis) : Prop :=
  left.output = right.output ∧ left.weight.bits = right.weight.bits

instance : DecidableRel Alike := fun _ _ => inferInstanceAs (Decidable (_ ∧ _))

def NoneBefore (analyses : List Analysis) (entry : Analysis × Nat) : Prop :=
  ∀ earlier ∈ analyses.take entry.2, ¬ earlier.Alike entry.1

instance (analyses : List Analysis) (entry : Analysis × Nat) :
    Decidable (NoneBefore analyses entry) :=
  inferInstanceAs (Decidable (∀ earlier ∈ _, _))

def firsts (analyses : List Analysis) : List Analysis :=
  (analyses.zipIdx.filter fun entry => NoneBefore analyses entry).map Prod.fst

/-- What is left of the analyses once those found before are dropped. -/
structure KeepsFirsts (uniqueBy : UniqueBy) (all kept : List Analysis) : Prop where
  firsts : kept = firsts all
  distinct : kept.Pairwise fun left right => ¬ left.Alike right
  complete : ∀ analysis ∈ all, ∃ other ∈ kept, other.Alike analysis
  ordered : kept.Pairwise fun left right => all.idxOf left < all.idxOf right
  stable : uniqueBy key kept = kept

theorem alike_iff_eq {left right : Analysis} : left.Alike right ↔ left = right := by
  constructor
  · intro alike
    obtain ⟨output, ⟨bits⟩⟩ := left
    obtain ⟨other, ⟨otherBits⟩⟩ := right
    obtain ⟨rfl, rfl⟩ := alike
    rfl
  · rintro rfl
    exact ⟨rfl, rfl⟩

theorem key_inj {left right : Analysis} : left.key = right.key ↔ left = right := by
  rw [← alike_iff_eq, key, key, Prod.mk.injEq, Alike]

theorem firsts_concat (analyses : List Analysis) (analysis : Analysis) :
    firsts (analyses ++ [analysis]) =
      if analysis ∈ analyses then firsts analyses else firsts analyses ++ [analysis] := by
  -- what stands in front of an earlier place is the same with and without the last analysis
  have front : (analyses.zipIdx.filter fun entry => NoneBefore (analyses ++ [analysis]) entry) =
      analyses.zipIdx.filter fun entry => NoneBefore analyses entry := by
    apply List.filter_congr
    intro entry mem
    have inside : entry.2 < analyses.length := by
      simpa using (List.mem_zipIdx mem).2.1
    apply decide_eq_decide.mpr
    rw [NoneBefore, NoneBefore, List.take_append_of_le_length (Nat.le_of_lt inside)]
  have last : NoneBefore (analyses ++ [analysis]) (analysis, 0 + analyses.length) ↔
      analysis ∉ analyses := by
    simp only [NoneBefore, Nat.zero_add, List.take_left, alike_iff_eq]
    exact ⟨fun none mem => none analysis mem rfl, fun fresh earlier mem same => fresh (same ▸ mem)⟩
  unfold firsts
  rw [List.zipIdx_append, List.filter_append, List.map_append, front, List.zipIdx_singleton]
  by_cases known : analysis ∈ analyses
  · have dropped := mt last.mp (not_not_intro known)
    rw [if_pos known, List.filter_cons_of_neg (by simpa using dropped)]
    exact List.append_nil _
  · have kept := last.mpr known
    rw [if_neg known, List.filter_cons_of_pos (by simpa using kept)]
    rfl

theorem eraseDups_eq_firsts (analyses : List Analysis) : analyses.eraseDups = firsts analyses := by
  -- from the end, since an analysis is judged by those before it
  induction analyses using List.reverseRecOn with
  | nil => rfl
  | append_singleton analyses analysis ih => rw [Interning.eraseDups_concat, firsts_concat, ih]

theorem pairwise_idxOf_eraseDups (analyses : List Analysis) :
    analyses.eraseDups.Pairwise fun left right => analyses.idxOf left < analyses.idxOf right := by
  induction analyses using List.reverseRecOn with
  | nil => exact .nil
  | append_singleton analyses analysis ih =>
    have place (other : Analysis) (mem : other ∈ analyses.eraseDups) :
        (analyses ++ [analysis]).idxOf other = analyses.idxOf other := by
      rw [List.idxOf_append, if_pos (List.mem_eraseDups.mp mem)]
    have earlier : analyses.eraseDups.Pairwise fun left right =>
        (analyses ++ [analysis]).idxOf left < (analyses ++ [analysis]).idxOf right := by
      refine ih.imp_of_mem fun left right lt => ?_
      rwa [place _ left, place _ right]
    rw [Interning.eraseDups_concat]
    by_cases known : analysis ∈ analyses
    · rwa [if_pos known]
    · rw [if_neg known]
      refine List.pairwise_append.mpr ⟨earlier, List.pairwise_singleton _ _, ?_⟩
      intro left mem right last
      rw [List.mem_singleton.mp last, place left mem, List.idxOf_append, if_neg known]
      have inside := List.idxOf_lt_length_of_mem (List.mem_eraseDups.mp mem)
      omega

theorem eraseDups_of_nodup {analyses : List Analysis} (nodup : analyses.Nodup) :
    analyses.eraseDups = analyses := by
  induction analyses using List.reverseRecOn with
  | nil => rfl
  | append_singleton analyses analysis ih =>
    obtain ⟨front, -, apart⟩ := List.nodup_append.mp nodup
    have fresh : analysis ∉ analyses := fun mem =>
      apart analysis mem analysis (List.mem_singleton_self _) rfl
    rw [Interning.eraseDups_concat, if_neg fresh, ih front]

theorem uniqueBy_key_eq_eraseDups {uniqueBy : UniqueBy} (lawful : uniqueBy.Lawful)
    (analyses : List Analysis) : uniqueBy key analyses = analyses.eraseDups := by
  -- From the end, since the law tells what comes of one more analysis. A key was let through
  -- exactly if the analysis it belongs to was met.
  induction analyses using List.reverseRecOn with
  | nil => exact lawful.nil key
  | append_singleton analyses analysis ih =>
    have met : analysis.key ∈ (uniqueBy key analyses).map key ↔ analysis ∈ analyses := by
      rw [ih, List.mem_map]
      simp only [key_inj, exists_eq_right, List.mem_eraseDups]
    rw [Interning.eraseDups_concat]
    by_cases known : analysis ∈ analyses
    · rw [if_pos known, lawful.known key _ _ (met.mpr known), ih]
    · rw [if_neg known, lawful.fresh key _ _ (mt met.mp known), ih]

theorem keepsFirsts_uniqueBy {uniqueBy : UniqueBy} (lawful : uniqueBy.Lawful)
    (all : List Analysis) : KeepsFirsts uniqueBy all (uniqueBy key all) := by
  rw [uniqueBy_key_eq_eraseDups lawful]
  refine ⟨eraseDups_eq_firsts all, ?_, ?_, pairwise_idxOf_eraseDups all, ?_⟩
  · refine (Interning.nodup_eraseDups all).imp fun distinct alike => ?_
    exact distinct (alike_iff_eq.mp alike)
  · exact fun analysis mem => ⟨analysis, List.mem_eraseDups.mpr mem, alike_iff_eq.mpr rfl⟩
  · rw [uniqueBy_key_eq_eraseDups lawful, eraseDups_of_nodup (Interning.nodup_eraseDups all)]

end Analysis

namespace Layout

/-- A letter with three transitions that have the same output, but none of which weighs a number.
The first and the last have the same bits for a weight. -/
def notNumbers : Layout where
  metadata := none
  inputSymbols := 2
  symbols := 2
  indexSize := 3
  transitionSize := 5
  states := 2
  transitions := 3
  properties := #v[1, 0, 0, 0, 0, 0, 0, 0, 0]
  texts := ["".toList, "a".toList]
  slots := List.flatMap Slot.bytes [.empty, .empty, ⟨1, 0x80000000⟩]
  records := List.flatMap (TransitionRecord.bytes true)
    [⟨1, 1, 0x80000004, ⟨0x7FC00001⟩⟩, ⟨1, 1, 0x80000004, ⟨0x7FC00002⟩⟩,
      ⟨1, 1, 0x80000004, ⟨0x7FC00001⟩⟩, .stop, .final]

end Layout

namespace Transducer

theorem analyze_true_eq_map {uniqueBy : UniqueBy} (lawful : uniqueBy.Lawful)
    (transducer : Transducer) (word : String) (maxDepth : Nat) :
    transducer.analyze word { maxDepth, deduplicate := true } uniqueBy =
      (transducer.analyze word { maxDepth, deduplicate := false } uniqueBy).map
        (uniqueBy Analysis.key) := by
  have nothing : (.ok [] : Except DepthExceeded (List Analysis)) =
      Except.map (uniqueBy Analysis.key) (.ok []) :=
    congrArg Except.ok (lawful.nil Analysis.key).symm
  unfold analyze
  cases transducer.tokenize word with
  | none => exact nothing
  | some symbols =>
    cases symbols with
    | nil => exact nothing
    | cons symbol symbols =>
      dsimp only
      cases transducer.search maxDepth (symbol :: symbols) <;> rfl

/-- Lookup gives up no matter what it would drop, and of the analyses it keeps the first of each
kind. -/
theorem analyze_keeps_firsts {uniqueBy : UniqueBy} (lawful : uniqueBy.Lawful)
    (transducer : Transducer) (word : String) (maxDepth : Nat) :
    (∀ error,
      transducer.analyze word { maxDepth, deduplicate := false } uniqueBy = .error error →
      transducer.analyze word { maxDepth, deduplicate := true } uniqueBy = .error error) ∧
    ∀ all, transducer.analyze word { maxDepth, deduplicate := false } uniqueBy = .ok all →
      ∃ kept, transducer.analyze word { maxDepth, deduplicate := true } uniqueBy = .ok kept ∧
        Analysis.KeepsFirsts uniqueBy all kept := by
  rw [analyze_true_eq_map lawful]
  constructor
  · intro error gaveUp
    rw [gaveUp]
    rfl
  · intro all found
    rw [found]
    exact ⟨uniqueBy Analysis.key all, rfl, Analysis.keepsFirsts_uniqueBy lawful all⟩

theorem analyze_keeps_firsts_notNumbers : ∃ (transducer : Transducer) (all kept : List Analysis),
    UniqueBy.inOrder.Lawful ∧ ofBytes Layout.notNumbers.bytes = .ok transducer ∧
    transducer.analyze "a" { maxDepth := 2, deduplicate := false } .inOrder = .ok all ∧
    transducer.analyze "a" { maxDepth := 2, deduplicate := true } .inOrder = .ok kept ∧
    all = [⟨"a", ⟨0x7FF8000020000000⟩⟩, ⟨"a", ⟨0x7FF8000040000000⟩⟩,
      ⟨"a", ⟨0x7FF8000020000000⟩⟩] ∧
    kept = [⟨"a", ⟨0x7FF8000020000000⟩⟩, ⟨"a", ⟨0x7FF8000040000000⟩⟩] ∧
    Analysis.KeepsFirsts .inOrder all kept := by
  have looked : (ofBytes Layout.notNumbers.bytes).toOption.map (fun transducer =>
      (transducer.analyze "a" { maxDepth := 2, deduplicate := false }).toOption.map id) =
      some (some [⟨"a", ⟨0x7FF8000020000000⟩⟩, ⟨"a", ⟨0x7FF8000040000000⟩⟩,
        ⟨"a", ⟨0x7FF8000020000000⟩⟩]) := by
    decide +kernel
  obtain ⟨transducer, loaded, view⟩ := exists_ok_of_map looked
  obtain ⟨all, found, same⟩ := exists_ok_of_map view
  obtain ⟨kept, foundKept, keeps⟩ :=
    (analyze_keeps_firsts UniqueBy.lawful_inOrder transducer "a" 2).2 all found
  refine ⟨transducer, all, kept, UniqueBy.lawful_inOrder, loaded, found, foundKept, same, ?_, keeps⟩
  rw [keeps.firsts, show all = _ from same]
  decide

end Transducer

end OptimizedLookup
