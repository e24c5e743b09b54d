import Mathlib.Data.List.Induction
import OptimizedLookup.Proofs.Alphabet.Numbering
import OptimizedLookup.Proofs.Flag.Spelling

/-! What an alphabet keeps of its texts. Every text has an entry, which is empty for the first text
and for flags; flags have operations; and every other text that is not empty is found by its
letters, at the last place where it stands. Entries, operations and the index of literals are filled
side by side and stay in step. -/
namespace OptimizedLookup.Alphabet

/-- The last place of a text that can be looked up, which is neither empty nor a flag nor the
first. -/
structure LastLiteral (texts : List (List Char)) (text : List Char) (index : Nat) : Prop where
  present : text ≠ []
  ordinary : ∀ flag, ¬ Flag.Written text flag
  later : index ≠ 0
  found : texts[index]? = some text
  last : ∀ other : Nat, texts[other]? = some text → other ≤ index

structure Enters (texts : List (List Char)) (text : List Char) : Prop where
  later : texts ≠ []
  present : text ≠ []
  ordinary : ∀ flag, ¬ Flag.Written text flag

variable {texts : List (List Char)} {text other : List Char} {index : Nat}

theorem lastLiteral_concat_self : LastLiteral (texts ++ [text]) text index ↔
    Enters texts text ∧ index = texts.length := by
  have final : (texts ++ [text])[texts.length]? = some text := List.getElem?_concat_length
  constructor
  · intro literal
    have within := (List.getElem?_eq_some_iff.mp literal.found).1
    have least := literal.last _ final
    rw [List.length_append, List.length_singleton] at within
    obtain rfl : index = texts.length := by omega
    exact ⟨⟨mt List.length_eq_zero_iff.mpr literal.later, literal.present, literal.ordinary⟩, rfl⟩
  · rintro ⟨enters, rfl⟩
    refine ⟨enters.present, enters.ordinary, mt List.length_eq_zero_iff.mp enters.later, final, ?_⟩
    intro place found
    have within := (List.getElem?_eq_some_iff.mp found).1
    rw [List.length_append, List.length_singleton] at within
    omega

theorem getElem?_concat_of_ne (different : other ≠ text) (place : Nat) :
    (texts ++ [text])[place]? = some other ↔ texts[place]? = some other := by
  rw [List.getElem?_append]
  split
  · rfl
  · next past =>
    rw [List.getElem?_eq_none (Nat.le_of_not_lt past), List.getElem?_singleton]
    split <;> simp [Ne.symm different]

theorem lastLiteral_concat_of_ne (different : other ≠ text) :
    LastLiteral (texts ++ [text]) other index ↔ LastLiteral texts other index := by
  have same (place : Nat) : (texts ++ [text])[place]? = some other ↔ texts[place]? = some other :=
    getElem?_concat_of_ne different place
  constructor
  · intro literal
    exact ⟨literal.present, literal.ordinary, literal.later, (same _).mp literal.found,
      fun place found => literal.last place ((same _).mpr found)⟩
  · intro literal
    exact ⟨literal.present, literal.ordinary, literal.later, (same _).mpr literal.found,
      fun place found => literal.last place ((same _).mp found)⟩

theorem lastLiteral_concat_of_not_enters (none : ¬ Enters texts text) :
    LastLiteral (texts ++ [text]) other index ↔ LastLiteral texts other index := by
  by_cases same : other = text
  · subst same
    rw [lastLiteral_concat_self]
    refine ⟨fun last => absurd last.1 none, fun literal => absurd ?_ none⟩
    refine ⟨?_, literal.present, literal.ordinary⟩
    rintro rfl
    cases literal.found
  · exact lastLiteral_concat_of_ne same

theorem exists_lastLiteral (present : text ≠ []) (ordinary : ∀ flag, ¬ Flag.Written text flag)
    (later : index ≠ 0) (found : texts[index]? = some text) :
    ∃ last, LastLiteral texts text last := by
  induction texts using List.reverseRecOn with
  | nil => contradiction
  | append_singleton texts final ih =>
    by_cases same : text = final
    · subst same
      refine ⟨texts.length, lastLiteral_concat_self.mpr ⟨⟨?_, present, ordinary⟩, rfl⟩⟩
      rintro rfl
      exact later (Nat.lt_one_iff.mp (List.getElem?_eq_some_iff.mp found).1)
    · obtain ⟨last, literal⟩ := ih ((getElem?_concat_of_ne same index).mp found)
      exact ⟨last, (lastLiteral_concat_of_ne same).mpr literal⟩

def Indexes (symbols : Std.TreeMap String Symbol) (texts : List (List Char)) : Prop :=
  ∀ (text : String) (symbol : Symbol), symbols[text]? = some symbol ↔
    ∃ index, LastLiteral texts text.toList index ∧ symbol = UInt16.ofNat index

namespace Draft

variable {draft next final : Draft}

theorem indexes_nothing : Indexes ({} : Draft).symbols [] := by
  intro text symbol
  constructor
  · intro stored
    cases (Std.TreeMap.getElem?_emptyc (a := text)).symm.trans stored
  · rintro ⟨_, literal, -⟩
    cases literal.found

theorem Took.of_add (took : draft.Took texts) (added : draft.add text = .ok next) :
    next.Took (texts ++ [text]) := by
  have outcome := took.add text
  split at outcome
  · obtain ⟨_, same, tookNext, -⟩ := outcome
    cases added.symm.trans same
    exact tookNext
  · cases added.symm.trans outcome

theorem Took.symbols_add (took : draft.Took texts) (added : draft.add text = .ok next) :
    Enters texts text ∧
        next.symbols = draft.symbols.insert (String.ofList text) (UInt16.ofNat texts.length) ∨
      ¬ Enters texts text ∧ next.symbols = draft.symbols := by
  unfold Draft.add at added
  by_cases first : texts = []
  · rw [took.size, if_pos (List.length_eq_zero_iff.mpr first)] at added
    cases added
    exact .inr ⟨fun enters => enters.later first, rfl⟩
  rw [took.size, if_neg (mt List.length_eq_zero_iff.mp first)] at added
  cases isFlag : Flag.Spelling.ofText? text with
  | some flag =>
    rw [isFlag] at added
    simp only [addFlag] at added
    split at added
    · cases added
      exact .inr ⟨fun enters => enters.ordinary flag (Flag.Spelling.written_of_ofText? isFlag), rfl⟩
    · contradiction
  | none =>
    rw [isFlag] at added
    cases added
    have ordinary := Flag.Spelling.ofText?_eq_none_iff.mp isFlag
    by_cases empty : text = []
    · refine .inr ⟨fun enters => enters.present empty, ?_⟩
      rw [addLiteral, empty]
      rfl
    · refine .inl ⟨⟨first, empty, ordinary⟩, ?_⟩
      have shown : (String.ofList text).isEmpty = false := by
        simpa [String.isEmpty_iff] using empty
      simp [addLiteral, shown, Draft.next, took.size]

theorem Took.indexes_add (took : draft.Took texts) (indexes : Indexes draft.symbols texts)
    (added : draft.add text = .ok next) : Indexes next.symbols (texts ++ [text]) := by
  intro other symbol
  obtain ⟨enters, stored⟩ | ⟨none, stored⟩ := took.symbols_add added
  · rw [stored, Std.TreeMap.getElem?_insert]
    by_cases same : other.toList = text
    · have key : String.ofList text = other := by rw [← same, String.ofList_toList]
      rw [key, if_pos Std.ReflCmp.compare_self, same]
      simp [lastLiteral_concat_self, enters, eq_comm]
    · have key : String.ofList text ≠ other := by
        rintro rfl
        exact same String.toList_ofList
      rw [if_neg fun equal => key (Std.LawfulEqCmp.eq_of_compare equal), indexes]
      simp only [lastLiteral_concat_of_ne same]
  · rw [stored, indexes]
    simp only [lastLiteral_concat_of_not_enters none]

theorem Took.indexes_addAll (took : draft.Took texts) (indexes : Indexes draft.symbols texts)
    {more : List (List Char)} (added : draft.addAll more = .ok final) :
    Indexes final.symbols (texts ++ more) := by
  -- Each text is taken up behind those before it, so the invariant is about both.
  induction more generalizing draft texts with
  | nil =>
    cases added
    rwa [List.append_nil]
  | cons text more ih =>
    rw [Draft.addAll, List.foldlM_cons, addBytes_terminated] at added
    have tookLonger := took.bytes (draft.byteLength + (terminated text).length)
    cases addedText : { draft with
        byteLength := draft.byteLength + (terminated text).length }.add text with
    | error error => rw [addedText] at added; contradiction
    | ok next =>
      rw [addedText] at added
      rw [List.append_cons]
      exact ih (tookLonger.of_add addedText) (tookLonger.indexes_add indexes addedText) added

end Draft

/-- What an alphabet has for the texts it was read from, the first of which only takes a place. -/
structure Represents (alphabet : Alphabet) (texts : List (List Char)) : Prop where
  length_keys : alphabet.keys.length = texts.length
  first : texts ≠ [] → alphabet.keys[0]? = some ""
  flag : ∀ (index : Nat) (text : List Char) (flag : Flag.Spelling), index ≠ 0 →
    texts[index]? = some text → Flag.Written text flag → alphabet.keys[index]? = some ""
  literal : ∀ (index : Nat) (text : List Char), index ≠ 0 → texts[index]? = some text →
    (∀ flag, ¬ Flag.Written text flag) → alphabet.keys[index]? = some (String.ofList text)
  operation : ∀ symbol, (∃ operation, alphabet.operation? symbol = some operation) ↔
    symbol ≠ 0 ∧ ∃ text flag, texts[symbol.toNat]? = some text ∧ Flag.Written text flag
  operations : ∀ symbol operation, (symbol, operation) ∈ alphabet.operations ↔
    alphabet.operation? symbol = some operation
  ordered : alphabet.operations.Pairwise fun left right => left.1 < right.1
  literals : ∀ text, (∃ symbol, alphabet.symbol? text = some symbol) ↔
    text ≠ "" ∧ (∀ flag, ¬ Flag.Written text.toList flag) ∧
      ∃ index : Nat, index ≠ 0 ∧ texts[index]? = some text.toList
  symbol : ∀ text symbol, alphabet.symbol? text = some symbol ↔
    LastLiteral texts text.toList symbol.toNat
  byteLength : alphabet.byteLength = (texts.flatMap Utf8.encode).length + texts.length

theorem length_flatMap_terminated (texts : List (List Char)) :
    (texts.flatMap terminated).length = (texts.flatMap Utf8.encode).length + texts.length := by
  induction texts with
  | nil => rfl
  | cons text texts ih =>
    simp only [List.flatMap_cons, List.length_append, ih, terminated, List.length_cons,
      List.length_nil]
    omega

variable {alphabet : Alphabet}

theorem Of.operation?_iff (made : alphabet.Of texts) (symbol : Symbol) :
    (∃ operation, alphabet.operation? symbol = some operation) ↔
      symbol ≠ 0 ∧ ∃ text flag, texts[symbol.toNat]? = some text ∧ Flag.Written text flag := by
  rw [Alphabet.operation?, made.entry?_eq]
  by_cases first : symbol = 0
  · subst first
    cases texts[(0 : Symbol).toNat]? <;> simp [entryOf, Entry.operation?]
  · have later : symbol.toNat ≠ 0 := fun zero => first (UInt16.toNat_inj.mp zero)
    cases texts[symbol.toNat]? with
    | none => simp
    | some text =>
      simp [operation?_entryOf later, first, ← Flag.Spelling.ofText?_eq_some_iff]

theorem exists_lastLiteral_iff (text : String) :
    (∃ index, LastLiteral texts text.toList index) ↔
      text ≠ "" ∧ (∀ flag, ¬ Flag.Written text.toList flag) ∧
        ∃ index : Nat, index ≠ 0 ∧ texts[index]? = some text.toList := by
  constructor
  · rintro ⟨index, literal⟩
    refine ⟨?_, literal.ordinary, index, literal.later, literal.found⟩
    rintro rfl
    exact literal.present rfl
  · rintro ⟨present, ordinary, index, later, found⟩
    exact exists_lastLiteral (mt String.toList_eq_nil_iff.mp present) ordinary later found

theorem symbol?_eq_some_iff (count : texts.length < UInt16.size)
    (indexes : Indexes alphabet.symbols texts) {text : String} {symbol : Symbol} :
    alphabet.symbol? text = some symbol ↔ LastLiteral texts text.toList symbol.toNat := by
  rw [Alphabet.symbol?, indexes]
  constructor
  · rintro ⟨place, literal, rfl⟩
    have within := (List.getElem?_eq_some_iff.mp literal.found).1
    rwa [UInt16.toNat_ofNat_of_lt' (Nat.lt_trans within count)]
  · intro literal
    exact ⟨symbol.toNat, literal, UInt16.ofNat_toNat.symm⟩

theorem Of.represents (made : alphabet.Of texts) (count : texts.length < UInt16.size)
    (indexes : Indexes alphabet.symbols texts) :
    alphabet.Represents texts where
  length_keys := made.length_keys
  first some := by
    obtain ⟨text, more, rfl⟩ := List.exists_cons_of_ne_nil some
    exact made.getElem?_keys 0
  flag index text flag later found written := by
    rw [made.getElem?_keys, found, Option.map_some, entryOf, if_neg later,
      Flag.Spelling.ofText?_of_written written]
    rfl
  literal index text later found ordinary := by
    rw [made.getElem?_keys, found, Option.map_some, entryOf, if_neg later,
      Flag.Spelling.ofText?_eq_none_iff.mpr ordinary]
    rfl
  operation := made.operation?_iff
  operations symbol operation := mem_operations_iff (made.size_entries_le count)
  ordered := pairwise_operations (made.size_entries_le count)
  literals text := by
    rw [← exists_lastLiteral_iff]
    constructor
    · rintro ⟨symbol, stored⟩
      exact ⟨_, (symbol?_eq_some_iff count indexes).mp stored⟩
    · rintro ⟨index, literal⟩
      exact ⟨_, (indexes _ _).mpr ⟨index, literal, rfl⟩⟩
  symbol text symbol := symbol?_eq_some_iff count indexes
  byteLength := by rw [made.byteLength, length_flatMap_terminated]

theorem represents_of_run_read (count : texts.length < UInt16.size)
    (clean : ∀ text ∈ texts, '\x00' ∉ text) {source rest : Source} {more : List UInt8}
    (contents : source.contents = texts.flatMap terminated ++ more)
    (found : (Alphabet.read texts.length).run source = .ok (alphabet, rest)) :
    alphabet.Represents texts := by
  cases added : ({} : Draft).addAll texts with
  | error error =>
    have failed := Draft.run_read_of_error clean contents added
    cases found.symm.trans (Loader.run_bind_of_error _ failed)
  | ok draft =>
    obtain ⟨after, same, -⟩ := (reads_read texts.length).complete contents
      ⟨texts, rfl, clean, rfl, draft, added, rfl⟩
    cases found.symm.trans same
    have indexes := Draft.took_nothing.indexes_addAll Draft.indexes_nothing added
    exact (Draft.of_addAll added).represents count indexes

/-- An alphabet that is read has a key for each text, an operation for each flag and the last place
of each literal, and its length is that of the bytes it was read from. -/
theorem read_represents {count : Symbol} {source rest : Source} {alphabet : Alphabet}
    (found : (Alphabet.read count.toNat).run source = .ok (alphabet, rest)) :
    (∃ texts : List (List Char), texts.length = count.toNat ∧ (∀ text ∈ texts, '\x00' ∉ text) ∧
      source.contents = texts.flatMap terminated ++ rest.contents) ∧
    (∀ texts : List (List Char), texts.length = count.toNat → (∀ text ∈ texts, '\x00' ∉ text) →
      source.contents = texts.flatMap terminated ++ rest.contents → alphabet.Represents texts) ∧
    source.contents.length = alphabet.byteLength + rest.contents.length := by
  obtain ⟨_, split, texts, length, clean, rfl, draft, added, rfl⟩ :=
    (reads_read count.toNat).sound found
  refine ⟨⟨texts, length, clean, split⟩, fun others number cleanOthers contents => ?_, ?_⟩
  · rw [← number] at found
    exact represents_of_run_read (number ▸ count.toNat_lt) cleanOthers contents found
  · rw [split, List.length_append, (Draft.of_addAll added).byteLength]

theorem read_represents_repeated : ∃ alphabet rest,
    let texts := ["@P.F.V@", "é", "", "@R.F@", "é"].map String.toList
    (Alphabet.read 5).run (.ofBytes (texts.flatMap terminated ++ [7])) = .ok (alphabet, rest) ∧
    alphabet.Represents texts ∧ alphabet.keys[0]? = some "" ∧ alphabet.keys[3]? = some "" ∧
    alphabet.keys[4]? = some "é" ∧ alphabet.symbol? "é" = some 4 ∧
    (∀ symbol, alphabet.symbol? "" ≠ some symbol) ∧
    (∀ operation, alphabet.operation? 0 ≠ some operation) ∧ alphabet.byteLength = 21 := by
  let texts := ["@P.F.V@", "é", "", "@R.F@", "é"].map String.toList
  have contents : (Source.ofBytes (texts.flatMap terminated ++ [7])).contents =
      texts.flatMap terminated ++ [7] := Source.contents_ofBytes _
  have outcome := run_read (by decide) contents
  rw [if_pos (by decide)] at outcome
  obtain ⟨alphabet, rest, found, left, -⟩ := outcome
  have read : (Alphabet.read (5 : Symbol).toNat).run _ = _ := found
  obtain ⟨-, each, -⟩ := read_represents read
  have represents := each texts rfl (by decide) (contents.trans (by rw [left]))
  have flag : Flag.Written "@R.F@".toList ⟨.require, "F".toList, []⟩ :=
    Flag.Spelling.ofText?_eq_some_iff.mp rfl
  have ordinary : ∀ flag, ¬ Flag.Written "é".toList flag :=
    Flag.Spelling.ofText?_eq_none_iff.mp rfl
  refine ⟨alphabet, rest, found, represents, represents.first (List.cons_ne_nil _ _),
    ?_, ?_, ?_, ?_, ?_, ?_⟩
  · exact represents.flag 3 _ _ (by decide) rfl flag
  · exact represents.literal 4 _ (by decide) rfl ordinary
  · refine (represents.symbol "é" 4).mpr
      ⟨by decide, ordinary, by decide, rfl, fun other again => ?_⟩
    exact Nat.le_of_lt_succ (List.getElem?_eq_some_iff.mp again).1
  · intro symbol stored
    exact ((represents.symbol "" symbol).mp stored).present rfl
  · intro operation stored
    exact ((represents.operation 0).mp ⟨operation, stored⟩).1 rfl
  · exact represents.byteLength

end OptimizedLookup.Alphabet
