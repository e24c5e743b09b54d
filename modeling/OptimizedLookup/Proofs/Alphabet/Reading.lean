import OptimizedLookup.Proofs.Alphabet.Entries
import OptimizedLookup.Proofs.Loading.Grammar
import OptimizedLookup.Proofs.Utf8

/-! The bytes of an alphabet: one text after the other, each with a NUL behind it. Reading an
alphabet reads exactly such bytes, with at most as many flag values as there are numbers for. -/
namespace OptimizedLookup.Alphabet

def terminated (text : List Char) : List UInt8 := Utf8.encode text ++ [0]

/-- What an alphabet made from texts is, apart from its index of literals. -/
structure Of (texts : List (List Char)) (alphabet : Alphabet) : Prop where
  entries : alphabet.entries.toList = texts.mapIdx (entryOf (featuresOf texts) (valuesOf texts))
  featureCount : alphabet.featureCount = (featuresOf texts).eraseDups.length
  byteLength : alphabet.byteLength = (texts.flatMap terminated).length
  bounded : (valuesOf texts).eraseDups.length ≤ valueLimit

section Entries

variable {alphabet : Alphabet} {texts : List (List Char)}

theorem Of.length_entries (made : alphabet.Of texts) : alphabet.entries.size = texts.length := by
  rw [← Array.length_toList, made.entries, List.length_mapIdx]

theorem Of.size_entries_le (made : alphabet.Of texts) (count : texts.length < UInt16.size) :
    alphabet.entries.size ≤ UInt16.size := by
  rw [made.length_entries]
  exact Nat.le_of_lt count

theorem Of.length_keys (made : alphabet.Of texts) : alphabet.keys.length = texts.length := by
  rw [keys, List.length_map, made.entries, List.length_mapIdx]

theorem Of.entry?_eq (made : alphabet.Of texts) (symbol : Symbol) :
    alphabet.entry? symbol =
      texts[symbol.toNat]?.map (entryOf (featuresOf texts) (valuesOf texts) symbol.toNat) := by
  rw [Alphabet.entry?, ← Array.getElem?_toList, made.entries, List.getElem?_mapIdx]

theorem Of.getElem?_keys (made : alphabet.Of texts) (index : Nat) :
    alphabet.keys[index]? = texts[index]?.map fun text =>
      (entryOf (featuresOf texts) (valuesOf texts) index text).key := by
  rw [keys, made.entries, List.getElem?_map, List.getElem?_mapIdx, Option.map_map]
  rfl

end Entries

theorem valuesOf_append_length_le (texts more : List (List Char)) :
    (valuesOf texts).eraseDups.length ≤ (valuesOf (texts ++ more)).eraseDups.length := by
  have split : valuesOf (texts ++ more) = valuesOf texts ++
      ((more.drop (1 - texts.length)).filterMap Flag.Spelling.ofText?).map
        fun flag => String.ofList flag.value := by
    rw [valuesOf, flagsOf, List.drop_append, List.filterMap_append, List.map_append]
    rfl
  rw [split, List.eraseDups_append, List.length_append]
  exact Nat.le_add_right _ _

namespace Draft

def addAll (draft : Draft) (texts : List (List Char)) : Except FormatError Draft :=
  texts.foldlM (fun draft text => draft.addBytes (terminated text)) draft

theorem addBytes_terminated (draft : Draft) (text : List Char) :
    draft.addBytes (terminated text) =
      { draft with byteLength := draft.byteLength + (terminated text).length }.add text := by
  unfold addBytes terminated
  rw [List.dropLast_concat, Utf8.decode_eq_ok_iff.mpr rfl]

theorem addBytes_eq_ok_iff {draft next : Draft} {body : List UInt8} :
    0 ∉ body ∧ draft.addBytes (body ++ [0]) = .ok next ↔
      ∃ text, '\x00' ∉ text ∧ body = Utf8.encode text ∧
        draft.addBytes (terminated text) = .ok next := by
  constructor
  · rintro ⟨clean, added⟩
    have decodes : ∃ text, Utf8.decode body = .ok text := by
      unfold addBytes at added
      rw [List.dropLast_concat] at added
      cases decoded : Utf8.decode body with
      | error fault => rw [decoded] at added; contradiction
      | ok text => exact ⟨text, rfl⟩
    obtain ⟨text, decoded⟩ := decodes
    obtain rfl := Utf8.decode_eq_ok_iff.mp decoded
    exact ⟨text, mt Utf8.zero_mem_encode_iff.mpr clean, rfl, added⟩
  · rintro ⟨text, clean, rfl, added⟩
    exact ⟨mt Utf8.zero_mem_encode_iff.mp clean, added⟩

theorem Took.addAll {draft : Draft} {before : List (List Char)} (took : draft.Took before)
    (texts : List (List Char)) :
    if (valuesOf (before ++ texts)).eraseDups.length ≤ valueLimit then
      ∃ next, draft.addAll texts = .ok next ∧ next.Took (before ++ texts) ∧
        next.byteLength = draft.byteLength + (texts.flatMap terminated).length
    else draft.addAll texts = .error .tooManyFlagValues := by
  -- The texts taken up before these are part of the invariant.
  induction texts generalizing draft before with
  | nil =>
    rw [List.append_nil, if_pos took.bounded]
    exact ⟨draft, rfl, took, rfl⟩
  | cons text texts ih =>
    have first := (took.bytes (draft.byteLength + (terminated text).length)).add text
    rw [← addBytes_terminated] at first
    rw [List.append_cons, Draft.addAll, List.foldlM_cons]
    by_cases fits : (valuesOf (before ++ [text])).eraseDups.length ≤ valueLimit
    · rw [if_pos fits] at first
      obtain ⟨next, added, tookNext, length⟩ := first
      have rest := ih tookNext
      rw [added]
      by_cases fitsAll : (valuesOf (before ++ [text] ++ texts)).eraseDups.length ≤ valueLimit
      · rw [if_pos fitsAll] at rest ⊢
        obtain ⟨last, addedRest, tookLast, lengthRest⟩ := rest
        refine ⟨last, addedRest, tookLast, ?_⟩
        rw [lengthRest, length, List.flatMap_cons, List.length_append, Nat.add_assoc]
      · rw [if_neg fitsAll] at rest ⊢
        exact rest
    · have tooMany := valuesOf_append_length_le (before ++ [text]) texts
      rw [if_neg fits] at first
      rw [first, if_neg (by omega)]
      rfl

theorem addAll_eq_ok_iff {texts : List (List Char)} :
    (∃ draft, ({} : Draft).addAll texts = .ok draft) ↔
      (valuesOf texts).eraseDups.length ≤ valueLimit := by
  have all := took_nothing.addAll texts
  rw [List.nil_append] at all
  constructor
  · rintro ⟨draft, added⟩
    by_cases fits : (valuesOf texts).eraseDups.length ≤ valueLimit
    · exact fits
    · rw [if_neg fits, added] at all
      contradiction
  · intro fits
    rw [if_pos fits] at all
    obtain ⟨draft, added, -⟩ := all
    exact ⟨draft, added⟩

theorem of_addAll {texts : List (List Char)} {draft : Draft}
    (added : ({} : Draft).addAll texts = .ok draft) : Alphabet.Of texts draft.finish := by
  have all := took_nothing.addAll texts
  rw [List.nil_append, if_pos (addAll_eq_ok_iff.mp ⟨draft, added⟩), added] at all
  obtain ⟨next, same, took, length⟩ := all
  cases same
  exact ⟨took.entries, took.features.size, length.trans (Nat.zero_add _), took.bounded⟩

def Spells (draft : Draft) (count : Nat) (used : List UInt8) (final : Draft) : Prop :=
  ∃ texts : List (List Char), texts.length = count ∧ (∀ text ∈ texts, '\x00' ∉ text) ∧
    used = texts.flatMap terminated ∧ draft.addAll texts = .ok final

def resume (count : Nat) : Except FormatError Draft → Loader Draft
  | .error error => throw (.format error)
  | .ok draft => draft.read count

theorem reads_read (draft : Draft) (count : Nat) : (draft.read count).Reads (draft.Spells count) := by
  induction count generalizing draft with
  | zero =>
    refine (Loader.reads_pure draft).congr fun used final => ?_
    constructor
    · rintro ⟨rfl, rfl⟩
      exact ⟨[], rfl, nofun, rfl, rfl⟩
    · rintro ⟨texts, length, -, rfl, added⟩
      obtain rfl := List.length_eq_zero_iff.mp length
      cases added
      exact ⟨rfl, rfl⟩
  | succ count ih =>
    have onward (bytes : List UInt8) : (resume count (draft.addBytes bytes)).Reads
        fun used final => ∃ next, draft.addBytes bytes = .ok next ∧
          next.Spells count used final := by
      cases draft.addBytes bytes with
      | error error => exact (Loader.reads_throw _).congr (by simp)
      | ok next => exact (ih next).congr (by simp)
    refine ((Loader.reads_read _ _).bind onward).congr fun used final => ?_
    constructor
    · rintro ⟨_, _, _, rfl, ⟨rfl, body, rfl, clean⟩, next, added, texts, rfl, cleanRest, rfl, all⟩
      obtain ⟨text, cleanText, rfl, addedText⟩ := addBytes_eq_ok_iff.mp ⟨clean, added⟩
      refine ⟨text :: texts, rfl, ?_, rfl, ?_⟩
      · exact List.forall_mem_cons.mpr ⟨cleanText, cleanRest⟩
      · rw [addAll, List.foldlM_cons, addedText]
        exact all
    · rintro ⟨texts, length, clean, rfl, all⟩
      cases texts with
      | nil => contradiction
      | cons text texts =>
        obtain ⟨cleanText, cleanRest⟩ := List.forall_mem_cons.mp clean
        rw [addAll, List.foldlM_cons] at all
        cases added : draft.addBytes (terminated text) with
        | error error => rw [added] at all; contradiction
        | ok next =>
          rw [added] at all
          obtain ⟨noNul, -⟩ := addBytes_eq_ok_iff.mpr ⟨text, cleanText, rfl, added⟩
          exact ⟨terminated text, texts.flatMap terminated, terminated text, rfl,
            ⟨rfl, _, rfl, noNul⟩, next, added, texts, Nat.succ.inj length, cleanRest, rfl, all⟩

end Draft

def Spells (count : Nat) (used : List UInt8) (alphabet : Alphabet) : Prop :=
  ∃ texts : List (List Char), texts.length = count ∧ (∀ text ∈ texts, '\x00' ∉ text) ∧
    used = texts.flatMap terminated ∧
    ∃ draft, ({} : Draft).addAll texts = .ok draft ∧ alphabet = draft.finish

theorem reads_read (count : Nat) : (Alphabet.read count).Reads (Spells count) := by
  refine ((Draft.reads_read {} count).bind fun draft => Loader.reads_pure draft.finish).congr
    fun used alphabet => ?_
  constructor
  · rintro ⟨_, _, draft, rfl, ⟨texts, length, clean, rfl, added⟩, rfl, rfl⟩
    exact ⟨texts, length, clean, List.append_nil _, draft, added, rfl⟩
  · rintro ⟨texts, length, clean, rfl, draft, added, rfl⟩
    exact ⟨_, [], draft, (List.append_nil _).symm, ⟨texts, length, clean, rfl, added⟩, rfl, rfl⟩

/-- Texts that cannot all be taken up are an error even before the last of them is read. -/
theorem Draft.run_read_of_error {draft : Draft} {texts : List (List Char)} {error : FormatError}
    (clean : ∀ text ∈ texts, '\x00' ∉ text) {source : Source} {more : List UInt8}
    (contents : source.contents = texts.flatMap terminated ++ more)
    (failed : draft.addAll texts = .error error) :
    (draft.read texts.length).run source = .error (.format error) := by
  induction texts generalizing draft source with
  | nil => contradiction
  | cons text texts ih =>
    obtain ⟨cleanText, cleanRest⟩ := List.forall_mem_cons.mp clean
    rw [List.flatMap_cons, List.append_assoc] at contents
    obtain ⟨after, drawn, left⟩ := (Loader.reads_read .alphabet .throughNul).complete contents
      ⟨rfl, Utf8.encode text, rfl, mt Utf8.zero_mem_encode_iff.mp cleanText⟩
    rw [addAll, List.foldlM_cons] at failed
    change (Loader.read .alphabet .throughNul >>= fun bytes =>
      resume texts.length (draft.addBytes bytes)).run source = _
    rw [Loader.run_bind_of_ok drawn]
    cases added : draft.addBytes (terminated text) with
    | error first =>
      rw [added] at failed
      cases failed
      rfl
    | ok next =>
      rw [added] at failed
      exact ih cleanRest left failed

theorem run_read {texts : List (List Char)} (clean : ∀ text ∈ texts, '\x00' ∉ text)
    {source : Source} {more : List UInt8}
    (contents : source.contents = texts.flatMap terminated ++ more) :
    if (valuesOf texts).eraseDups.length ≤ valueLimit then
      ∃ alphabet rest, (Alphabet.read texts.length).run source = .ok (alphabet, rest) ∧
        rest.contents = more ∧ Alphabet.Of texts alphabet
    else (Alphabet.read texts.length).run source = .error (.format .tooManyFlagValues) := by
  have all := Draft.took_nothing.addAll texts
  rw [List.nil_append] at all
  by_cases fits : (valuesOf texts).eraseDups.length ≤ valueLimit
  · rw [if_pos fits] at all ⊢
    obtain ⟨draft, added, -⟩ := all
    obtain ⟨rest, found, left⟩ := (reads_read texts.length).complete contents
      ⟨texts, rfl, clean, rfl, draft, added, rfl⟩
    exact ⟨draft.finish, rest, found, left, Draft.of_addAll added⟩
  · rw [if_neg fits] at all ⊢
    exact Loader.run_bind_of_error _ (Draft.run_read_of_error clean contents all)

theorem of_read {count : Nat} {source rest : Source} {alphabet : Alphabet}
    (found : (Alphabet.read count).run source = .ok (alphabet, rest)) :
    ∃ texts : List (List Char), texts.length = count ∧ Alphabet.Of texts alphabet := by
  obtain ⟨_, -, texts, length, -, -, draft, added, rfl⟩ := (reads_read count).sound found
  exact ⟨texts, length, Draft.of_addAll added⟩

end OptimizedLookup.Alphabet
