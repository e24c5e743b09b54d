import OptimizedLookup.Proofs.Loading.Layout
import OptimizedLookup.Proofs.Tokenizer.Segmentation

/-! The symbol of a text, found in two ways. The index of literals is filled while the alphabet is
read, and the trie is filled from the keys when it is there. Both have the last place of the text
among the texts that were read, and so a text is split into one symbol exactly if it is indexed with
that symbol. -/
namespace OptimizedLookup

namespace Alphabet

variable {alphabet : Alphabet} {texts : List (List Char)} {symbol : Symbol} {text : List Char}

theorem Of.isLiteral_iff (made : alphabet.Of texts) : alphabet.IsLiteral symbol text ↔
    text ≠ [] ∧ (∀ flag, ¬ Flag.Written text flag) ∧ symbol.toNat ≠ 0 ∧
      texts[symbol.toNat]? = some text := by
  rw [IsLiteral, made.entry?_eq]
  refine and_congr_right fun _ => ?_
  cases found : texts[symbol.toNat]? with
  | none => simp
  | some other =>
    rw [Option.map_some, Option.some_inj, Option.some_inj, ← Flag.Spelling.ofText?_eq_none_iff]
    by_cases first : symbol.toNat = 0
    · simp [entryOf, first]
    · rw [entryOf, if_neg first]
      cases isFlag : Flag.Spelling.ofText? other with
      | some flag =>
        constructor
        · intro literal
          cases literal
        · rintro ⟨ordinary, -, rfl⟩
          cases ordinary.symm.trans isFlag
      | none =>
        rw [Entry.literal.injEq, String.ofList_inj]
        refine ⟨?_, fun literal => literal.2.2⟩
        rintro rfl
        exact ⟨isFlag, first, rfl⟩

theorem Of.lastLiteral_iff (made : alphabet.Of texts) (count : texts.length < UInt16.size) :
    LastLiteral texts text symbol.toNat ↔ alphabet.IsLiteral symbol text ∧
      ∀ other, alphabet.IsLiteral other text → other.toNat ≤ symbol.toNat := by
  constructor
  · intro literal
    refine ⟨made.isLiteral_iff.mpr
      ⟨literal.present, literal.ordinary, literal.later, literal.found⟩, fun other again => ?_⟩
    exact literal.last _ (made.isLiteral_iff.mp again).2.2.2
  · rintro ⟨literal, greatest⟩
    obtain ⟨present, ordinary, later, found⟩ := made.isLiteral_iff.mp literal
    refine ⟨present, ordinary, later, found, fun place again => ?_⟩
    by_cases first : place = 0
    · exact first ▸ Nat.zero_le _
    · have within := (List.getElem?_eq_some_iff.mp again).1
      have number : (UInt16.ofNat place).toNat = place :=
        UInt16.toNat_ofNat_of_lt' (Nat.lt_trans within count)
      rw [← number]
      exact greatest _ (made.isLiteral_iff.mpr (number.symm ▸ ⟨present, ordinary, first, again⟩))

theorem takes_self_iff : alphabet.Takes text symbol text ↔ alphabet.IsLiteral symbol text ∧
    ∀ other, alphabet.IsLiteral other text → other.toNat ≤ symbol.toNat := by
  constructor
  · intro takes
    exact ⟨takes.literal, takes.greatest⟩
  · rintro ⟨literal, greatest⟩
    exact ⟨literal, List.prefix_rfl, fun _ _ _ begins => begins.length_le, greatest⟩

theorem segments_singleton_iff :
    alphabet.Segments text [symbol] [] ↔ alphabet.Takes text symbol text := by
  constructor
  · intro segments
    cases segments with
    | take takes onward =>
      cases onward
      rwa [List.append_nil] at takes ⊢
  · intro takes
    have segments : alphabet.Segments (text ++ []) [symbol] [] :=
      .take (by rwa [List.append_nil]) (.stop [])
    rwa [List.append_nil] at segments

theorem Of.tokenize_one_iff (made : alphabet.Of texts) (count : texts.length < UInt16.size)
    (indexes : Indexes alphabet.symbols texts) {word : String} :
    (LetterTrie.ofAlphabet alphabet).tokenize word = some [symbol] ↔
      alphabet.symbol? word = some symbol := by
  rw [made.tokenize_eq_some_iff count, segments_singleton_iff, takes_self_iff,
    ← made.lastLiteral_iff count, symbol?_eq_some_iff count indexes]

theorem isLiteral_of_key? {shown : String} (present : shown ≠ "")
    (prints : alphabet.key? symbol = some shown) : alphabet.IsLiteral symbol shown.toList := by
  obtain ⟨entry, stored, rfl⟩ := Option.map_eq_some_iff.mp prints
  cases entry with
  | literal shown =>
    refine ⟨mt String.toList_eq_nil_iff.mp present, ?_⟩
    rw [stored, Entry.key, String.ofList_toList]
  | _ => contradiction

theorem Of.exists_symbol? (made : alphabet.Of texts) (count : texts.length < UInt16.size)
    (indexes : Indexes alphabet.symbols texts) {shown : String} (present : shown ≠ "")
    (prints : alphabet.key? symbol = some shown) :
    ∃ entry, alphabet.symbol? shown = some entry ∧ alphabet.key? entry = some shown := by
  obtain ⟨filled, ordinary, later, found⟩ :=
    made.isLiteral_iff.mp (isLiteral_of_key? present prints)
  obtain ⟨index, literal⟩ := exists_lastLiteral filled ordinary later found
  have indexed : alphabet.symbol? shown = some (UInt16.ofNat index) :=
    (indexes _ _).mpr ⟨index, literal, rfl⟩
  refine ⟨_, indexed, ?_⟩
  have last := (symbol?_eq_some_iff count indexes).mp indexed
  rw [((made.lastLiteral_iff count).mp last).1.key?, String.ofList_toList]

end Alphabet

namespace Layout

/-- Literals that overlap: `ab` begins with `a`, ends where `bc` begins and is there twice. -/
def overlapping : Layout :=
  { twoPaths with
    symbols := 6
    texts := ["", "a", "ab", "bc", "@P.C.X@", "ab"].map String.toList }

end Layout

namespace Transducer

variable {source : Source} {transducer : Transducer}

/-- A word is one symbol exactly if the symbol is indexed for it, and so every text that a symbol
prints is the one symbol that is indexed for it, whatever other symbols it is made of. -/
theorem tokenize_eq_singleton_iff (loaded : load source = .ok transducer) :
    (∀ word symbol, transducer.tokenize word = some [symbol] ↔
      transducer.alphabet.symbol? word = some symbol) ∧
    ∀ symbol text, transducer.alphabet.key? symbol = some text → text ≠ "" →
      ∃ entry, transducer.alphabet.symbol? text = some entry ∧
        transducer.tokenize text = some [entry] ∧
        transducer.alphabet.key? entry = some text := by
  obtain ⟨texts, count, made, indexes, trie⟩ := indexes_of_load loaded
  have agree (word : String) (symbol : Symbol) : transducer.tokenize word = some [symbol] ↔
      transducer.alphabet.symbol? word = some symbol := by
    rw [tokenize, trie]
    exact made.tokenize_one_iff count indexes
  refine ⟨agree, fun symbol text prints present => ?_⟩
  obtain ⟨entry, indexed, again⟩ := made.exists_symbol? count indexes present prints
  exact ⟨entry, indexed, (agree text entry).mpr indexed, again⟩

/-- Both symbols that print `ab` lead to the second of them, although `a` would fit as well. The
word `aba` is split but is not one symbol, and so it is not indexed. -/
theorem tokenize_eq_singleton_iff_overlapping : ∃ transducer : Transducer,
    load (.ofBytes Layout.overlapping.bytes) = .ok transducer ∧
    transducer.alphabet.key? 2 = some "ab" ∧ transducer.alphabet.key? 5 = some "ab" ∧
    transducer.alphabet.symbol? "ab" = some 5 ∧ transducer.tokenize "ab" = some [5] ∧
    transducer.tokenize "aba" = some [5, 1] ∧
    ∀ symbol, transducer.alphabet.symbol? "aba" ≠ some symbol := by
  have looked : (ofBytes Layout.overlapping.bytes).toOption.map (fun transducer =>
      (transducer.tokenize "ab", transducer.tokenize "aba", transducer.alphabet.key? 2,
        transducer.alphabet.key? 5)) =
      some (some [5], some [5, 1], some "ab", some "ab") := by
    decide +kernel
  obtain ⟨transducer, loaded, view⟩ := exists_ok_of_map looked
  simp only [Prod.mk.injEq] at view
  obtain ⟨whole, split, second, last⟩ := view
  obtain ⟨agree, printed⟩ := tokenize_eq_singleton_iff loaded
  obtain ⟨entry, indexed, again, -⟩ := printed 2 "ab" second (by decide)
  obtain rfl : entry = 5 := by
    cases whole.symm.trans again
    rfl
  refine ⟨transducer, loaded, second, last, indexed, again, split, fun symbol indexed => ?_⟩
  cases split.symm.trans ((agree "aba" symbol).mpr indexed)

end Transducer

end OptimizedLookup
