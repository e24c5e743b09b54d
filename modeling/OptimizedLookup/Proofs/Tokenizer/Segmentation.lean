import OptimizedLookup.Proofs.Alphabet.Literals
import OptimizedLookup.Proofs.Loading.Sections
import OptimizedLookup.Proofs.Path.Listing
import OptimizedLookup.Proofs.Tokenizer.Dictionary

/-! Words as rows of literals. At each place of a word the longest literal that fits is taken, and a
word is split exactly if this goes on to its end; then the literals put together are the word. -/
namespace OptimizedLookup

namespace Alphabet

def IsLiteral (alphabet : Alphabet) (symbol : Symbol) (text : List Char) : Prop :=
  text ≠ [] ∧ alphabet.entry? symbol = some (.literal (String.ofList text))

/-- The text is the longest literal that the rest of a word begins with, and the symbol is the
greatest that prints it. -/
structure Takes (alphabet : Alphabet) (rest : List Char) (symbol : Symbol) (text : List Char) :
    Prop where
  literal : alphabet.IsLiteral symbol text
  begins : text <+: rest
  longest : ∀ other longer, alphabet.IsLiteral other longer → longer <+: rest →
    longer.length ≤ text.length
  greatest : ∀ other, alphabet.IsLiteral other text → other.toNat ≤ symbol.toNat

/-- Splitting takes one literal after the other from the front of a text and leaves the rest. -/
inductive Segments (alphabet : Alphabet) : List Char → List Symbol → List Char → Prop
  | stop (rest : List Char) : Segments alphabet rest [] rest
  | take {text rest left : List Char} {symbol : Symbol} {symbols : List Symbol}
      (takes : alphabet.Takes (text ++ rest) symbol text)
      (onward : Segments alphabet rest symbols left) :
      Segments alphabet (text ++ rest) (symbol :: symbols) left

def Misses (alphabet : Alphabet) (rest : List Char) : Prop :=
  ∀ symbol text, alphabet.IsLiteral symbol text → ¬ text <+: rest

variable {alphabet : Alphabet} {texts : List (List Char)} {symbol other : Symbol}
  {text longer rest left : List Char} {symbols : List Symbol}

theorem isLiteral_iff (present : text ≠ []) : alphabet.IsLiteral symbol text ↔
    alphabet.keys[symbol.toNat]? = some (String.ofList text) := by
  rw [IsLiteral, and_iff_right present, keys, List.getElem?_map, Array.getElem?_toList, entry?]
  cases alphabet.entries[symbol.toNat]? with
  | none => simp
  | some entry =>
    have prints : ¬ "" = String.ofList text := fun same =>
      present (String.ofList_eq_empty_iff.mp same.symm)
    cases entry <;> simp [Entry.key, prints]

theorem IsLiteral.key? (literal : alphabet.IsLiteral symbol text) :
    alphabet.key? symbol = some (String.ofList text) := by
  rw [Alphabet.key?, literal.2]
  rfl

theorem IsLiteral.isFlag (literal : alphabet.IsLiteral symbol text) :
    alphabet.isFlag symbol = false := by
  rw [Alphabet.isFlag, operation?, literal.2]
  rfl

theorem IsLiteral.within (literal : alphabet.IsLiteral symbol text) :
    symbol.toNat < alphabet.keys.length :=
  (List.getElem?_eq_some_iff.mp ((isLiteral_iff literal.1).mp literal)).1

theorem Of.literal_ne_zero (made : alphabet.Of texts) (literal : alphabet.IsLiteral symbol text) :
    symbol ≠ 0 := by
  rintro rfl
  have stored := literal.2
  rw [made.entry?_eq] at stored
  obtain ⟨_, -, same⟩ := Option.map_eq_some_iff.mp stored
  contradiction

theorem Of.symbol?_ofAlphabet (made : alphabet.Of texts) (count : texts.length < UInt16.size)
    (text : List Char) :
    (∃ symbol, (LetterTrie.ofAlphabet alphabet).symbol? text = some symbol ∧
      alphabet.IsLiteral symbol text ∧
      ∀ other, alphabet.IsLiteral other text → other.toNat ≤ symbol.toNat) ∨
    (LetterTrie.ofAlphabet alphabet).symbol? text = none ∧
      ∀ symbol, ¬ alphabet.IsLiteral symbol text := by
  by_cases present : text ≠ []
  · obtain ⟨index, nonzero, found, stored, last⟩ | ⟨absent, missing⟩ :=
      LetterTrie.symbol?_ofAlphabet alphabet present
    · have within := (List.getElem?_eq_some_iff.mp found).1
      rw [made.length_keys] at within
      have number : (UInt16.ofNat index).toNat = index :=
        UInt16.toNat_ofNat_of_lt' (Nat.lt_trans within count)
      refine .inl ⟨_, stored, ?_, fun other literal => ?_⟩
      · rwa [isLiteral_iff present, number]
      · rw [number]
        exact last _ ((isLiteral_iff present).mp literal)
    · refine .inr ⟨missing, fun symbol literal => ?_⟩
      refine absent symbol.toNat (fun zero => ?_) ((isLiteral_iff present).mp literal)
      exact made.literal_ne_zero literal (UInt16.toNat_inj.mp zero)
  · refine .inr ⟨?_, fun _ literal => present literal.1⟩
    rw [Decidable.not_not.mp present, LetterTrie.symbol?_nil]

theorem Of.takes_of_longest (made : alphabet.Of texts) (count : texts.length < UInt16.size)
    (longest : (LetterTrie.ofAlphabet alphabet).Longest rest symbol text) :
    alphabet.Takes rest symbol text := by
  obtain ⟨_, stored, literal, greatest⟩ | ⟨missing, -⟩ := made.symbol?_ofAlphabet count text
  · cases longest.stored.symm.trans stored
    refine ⟨literal, longest.begins, fun other longer literal begins => ?_, greatest⟩
    obtain ⟨_, stored, -⟩ | ⟨-, none⟩ := made.symbol?_ofAlphabet count longer
    · exact longest.longest longer _ begins stored
    · exact absurd literal (none other)
  · cases longest.stored.symm.trans missing

theorem Of.misses (made : alphabet.Of texts) (count : texts.length < UInt16.size)
    (misses : (LetterTrie.ofAlphabet alphabet).Misses rest) : alphabet.Misses rest := by
  intro symbol text literal begins
  obtain ⟨_, stored, -⟩ | ⟨-, none⟩ := made.symbol?_ofAlphabet count text
  · cases (misses text begins).symm.trans stored
  · exact none symbol literal

theorem Takes.unique (takes : alphabet.Takes rest symbol text)
    (again : alphabet.Takes rest other longer) : symbol = other ∧ text = longer := by
  have length : text.length = longer.length :=
    Nat.le_antisymm (again.longest _ _ takes.literal takes.begins)
      (takes.longest _ _ again.literal again.begins)
  have inside := List.prefix_of_prefix_length_le takes.begins again.begins (Nat.le_of_eq length)
  obtain rfl : text = longer := inside.eq_of_length length
  refine ⟨UInt16.toNat_inj.mp (Nat.le_antisymm ?_ ?_), rfl⟩
  · exact again.greatest _ takes.literal
  · exact takes.greatest _ again.literal

theorem misses_nil (alphabet : Alphabet) : alphabet.Misses [] :=
  fun _ _ literal begins => literal.1 (List.prefix_nil.mp begins)

theorem Segments.unique {others : List Symbol} {stop : List Char}
    (segments : alphabet.Segments text symbols left) (misses : alphabet.Misses left)
    (again : alphabet.Segments text others stop) (missesAgain : alphabet.Misses stop) :
    symbols = others ∧ left = stop := by
  induction segments generalizing others with
  | stop rest =>
    cases again with
    | stop => exact ⟨rfl, rfl⟩
    | take takes => exact absurd takes.begins (misses _ _ takes.literal)
  | @take text rest left symbol symbols takes onward ih =>
    generalize whole : text ++ rest = word at again
    cases again with
    | stop => exact absurd (whole ▸ takes.begins) (missesAgain _ _ takes.literal)
    | take takesAgain onwardAgain =>
      rw [← whole] at takesAgain
      obtain ⟨rfl, rfl⟩ := takes.unique takesAgain
      obtain rfl := List.append_cancel_left whole
      obtain ⟨rfl, rfl⟩ := ih misses onwardAgain
      exact ⟨rfl, rfl⟩

theorem Segments.render (segments : alphabet.Segments text symbols left) :
    alphabet.render symbols ++ String.ofList left = String.ofList text := by
  induction segments with
  | stop rest => simp [Alphabet.render]
  | take takes onward ih =>
    rw [String.ofList_append, ← ih]
    simp [Alphabet.render, takes.literal.key?, String.append_assoc]

theorem Segments.exists_literal (segments : alphabet.Segments text symbols left)
    (mem : symbol ∈ symbols) : ∃ text, alphabet.IsLiteral symbol text := by
  induction segments with
  | stop => contradiction
  | take takes onward ih =>
    rcases List.mem_cons.mp mem with rfl | mem
    · exact ⟨_, takes.literal⟩
    · exact ih mem

end Alphabet

namespace LetterTrie

variable {trie : LetterTrie} {cursor : Cursor} {symbol : Symbol} {spelling : List Char}

theorem tokenizeFrom_of_rest_nil (done : cursor.rest = []) :
    trie.tokenizeFrom cursor = some [] := by
  rw [tokenizeFrom, if_pos (Cursor.isExhausted_iff.mpr done)]

theorem tokenizeFrom_of_find_some (present : spelling ≠ [])
    (found : trie.find cursor = (some symbol, cursor.advance spelling.length))
    (more : cursor.rest ≠ []) :
    trie.tokenizeFrom cursor =
      (trie.tokenizeFrom (cursor.advance spelling.length)).map (symbol :: ·) := by
  have further : cursor.position < (cursor.advance spelling.length).position :=
    Nat.lt_add_of_pos_right (List.length_pos_iff.mpr present)
  rw [tokenizeFrom, if_neg (mt Cursor.isExhausted_iff.mp more)]
  split
  · next same =>
    cases found.symm.trans same
    rw [if_pos further]
  · next same => cases found.symm.trans same

theorem tokenizeFrom_of_find_none (found : trie.find cursor = (none, cursor))
    (more : cursor.rest ≠ []) : trie.tokenizeFrom cursor = none := by
  rw [tokenizeFrom, if_neg (mt Cursor.isExhausted_iff.mp more)]
  split
  · next same => cases found.symm.trans same
  · rfl

end LetterTrie

theorem Alphabet.Of.tokenizeFrom (made : alphabet.Of texts) (count : texts.length < UInt16.size)
    (cursor : Cursor) : ∃ symbols left, alphabet.Segments cursor.rest symbols left ∧
      alphabet.Misses left ∧ (LetterTrie.ofAlphabet alphabet).tokenizeFrom cursor =
        if left = [] then some symbols else none := by
  -- a literal is never empty, so that each one that is taken leaves less to be read
  induction length : cursor.rest.length using Nat.strongRecOn generalizing cursor with
  | ind size ih =>
    by_cases more : cursor.rest = []
    · rw [LetterTrie.tokenizeFrom_of_rest_nil more, more]
      exact ⟨[], [], .stop [], alphabet.misses_nil, rfl⟩
    · obtain ⟨symbol, spelling, longest, found⟩ | ⟨misses, found⟩ :=
        (LetterTrie.ofAlphabet alphabet).find_longest cursor
      · have takes := made.takes_of_longest count longest
        have present := takes.literal.1
        obtain ⟨behind, split⟩ := takes.begins
        have onward : (cursor.advance spelling.length).rest = behind := by
          rw [Cursor.rest_advance, ← split, List.drop_left]
        have shorter : behind.length < size := by
          rw [← length, ← split, List.length_append]
          exact Nat.lt_add_of_pos_left (List.length_pos_iff.mpr present)
        obtain ⟨symbols, left, segments, missesLeft, rest⟩ :=
          ih _ shorter (cursor.advance spelling.length) (congrArg List.length onward)
        rw [onward] at segments
        rw [← split] at takes ⊢
        refine ⟨symbol :: symbols, left, .take takes segments, missesLeft, ?_⟩
        rw [LetterTrie.tokenizeFrom_of_find_some present found more, rest]
        split <;> rfl
      · refine ⟨[], cursor.rest, .stop _, made.misses count misses, ?_⟩
        rw [LetterTrie.tokenizeFrom_of_find_none found more, if_neg more]

theorem Alphabet.Of.tokenize_eq_some_iff (made : alphabet.Of texts)
    (count : texts.length < UInt16.size) {word : String} {tokens : List Symbol} :
    (LetterTrie.ofAlphabet alphabet).tokenize word = some tokens ↔
      alphabet.Segments word.toList tokens [] := by
  obtain ⟨symbols, left, segments, misses, split⟩ := made.tokenizeFrom count (.ofWord word)
  rw [Cursor.rest_ofWord] at segments
  rw [LetterTrie.tokenize, split]
  constructor
  · intro same
    split at same
    · next done =>
      cases same
      exact done ▸ segments
    · contradiction
  · intro again
    obtain ⟨rfl, rfl⟩ := segments.unique misses again alphabet.misses_nil
    rw [if_pos rfl]

theorem Alphabet.Of.tokenize_eq_none_iff (made : alphabet.Of texts)
    (count : texts.length < UInt16.size) {word : String} :
    (LetterTrie.ofAlphabet alphabet).tokenize word = none ↔
      ∃ tokens left, alphabet.Segments word.toList tokens left ∧ left ≠ [] ∧
        alphabet.Misses left := by
  obtain ⟨symbols, left, segments, misses, split⟩ := made.tokenizeFrom count (.ofWord word)
  rw [Cursor.rest_ofWord] at segments
  rw [LetterTrie.tokenize, split]
  constructor
  · intro none
    split at none
    · contradiction
    · next more => exact ⟨symbols, left, segments, more, misses⟩
  · rintro ⟨tokens, stop, again, more, missesAgain⟩
    obtain ⟨rfl, rfl⟩ := segments.unique misses again missesAgain
    rw [if_neg more]

namespace LetterTrie

/-- A word is split by taking the longest literal at each place, and for a literal that is there
several times its greatest symbol; the symbols print the word again. It is not split if this comes
to a place where no literal fits, however else the word could be split. -/
theorem tokenize_ofAlphabet {count : UInt16} {source rest : Source} {alphabet : Alphabet}
    (found : (Alphabet.read count.toNat).run source = .ok (alphabet, rest)) (word : String) :
    (∀ tokens, (ofAlphabet alphabet).tokenize word = some tokens ↔
      alphabet.Segments word.toList tokens []) ∧
    (∀ tokens, (ofAlphabet alphabet).tokenize word = some tokens →
      alphabet.render tokens = word ∧
      ∀ token ∈ tokens, 1 ≤ token.toNat ∧ token.toNat < alphabet.keys.length ∧
        token ≠ noSymbol ∧ alphabet.isFlag token = false ∧
        ∃ key, alphabet.key? token = some key ∧ key ≠ "") ∧
    ((ofAlphabet alphabet).tokenize word = none ↔
      ∃ tokens left, alphabet.Segments word.toList tokens left ∧ left ≠ [] ∧
        alphabet.Misses left) := by
  obtain ⟨texts, number, made⟩ := Alphabet.of_read found
  have bounded : texts.length < UInt16.size := number ▸ count.toNat_lt
  refine ⟨fun tokens => made.tokenize_eq_some_iff bounded, fun tokens split => ?_,
    made.tokenize_eq_none_iff bounded⟩
  have segments := (made.tokenize_eq_some_iff bounded).mp split
  refine ⟨?_, fun token mem => ?_⟩
  · have rendered := segments.render
    rwa [String.ofList_nil, String.append_empty, String.ofList_toList] at rendered
  · obtain ⟨text, literal⟩ := segments.exists_literal mem
    have within := literal.within
    have positive : token.toNat ≠ 0 := fun zero =>
      made.literal_ne_zero literal (UInt16.toNat_inj.mp zero)
    refine ⟨Nat.pos_of_ne_zero positive, within, ?_, literal.isFlag, _, literal.key?,
      mt String.ofList_eq_empty_iff.mp literal.1⟩
    rintro rfl
    rw [made.length_keys] at within
    exact absurd (Nat.lt_of_le_of_lt within bounded) (by decide)

/-- Of the two symbols for `ab` the greater is taken. It leaves the `c` of `abc` over, and so the word
is not split, although `a` and `bc` would make it up. -/
theorem tokenize_ofAlphabet_overlapping : ∃ (alphabet : Alphabet) (rest : Source),
    let texts := ["".toList, "a".toList, "ab".toList, "bc".toList, "@P.C.X@".toList, "ab".toList]
    (Alphabet.read 6).run (.ofBytes (texts.flatMap Alphabet.terminated)) = .ok (alphabet, rest) ∧
    (ofAlphabet alphabet).tokenize "aba" = some [5, 1] ∧
    alphabet.Segments "aba".toList [5, 1] [] ∧ alphabet.render [5, 1] = "aba" ∧
    (ofAlphabet alphabet).tokenize "abc" = none ∧
    (∃ tokens left, alphabet.Segments "abc".toList tokens left ∧ left ≠ [] ∧
      alphabet.Misses left) ∧
    alphabet.IsLiteral 1 "a".toList ∧ alphabet.IsLiteral 3 "bc".toList := by
  let texts := ["".toList, "a".toList, "ab".toList, "bc".toList, "@P.C.X@".toList, "ab".toList]
  have looked : ((Alphabet.read 6).run
      (.ofBytes (texts.flatMap Alphabet.terminated))).toOption.map (fun result =>
        ((ofAlphabet result.1).tokenize "aba", (ofAlphabet result.1).tokenize "abc",
          Alphabet.entry? result.1 1, Alphabet.entry? result.1 3)) =
      some (some [5, 1], none, some (.literal "a"), some (.literal "bc")) := by
    decide +kernel
  obtain ⟨⟨alphabet, rest⟩, found, view⟩ := exists_ok_of_map looked
  obtain ⟨whole, view⟩ := Prod.mk.inj view
  obtain ⟨stalled, view⟩ := Prod.mk.inj view
  obtain ⟨first, third⟩ := Prod.mk.inj view
  have read : (Alphabet.read (6 : UInt16).toNat).run _ = _ := found
  obtain ⟨splits, proper, -⟩ := tokenize_ofAlphabet read "aba"
  obtain ⟨-, -, stalls⟩ := tokenize_ofAlphabet read "abc"
  exact ⟨alphabet, rest, found, whole, (splits _).mp whole, (proper _ whole).1, stalled,
    stalls.mp stalled, ⟨by decide, first⟩, ⟨by decide, third⟩⟩

end LetterTrie

theorem LetterTrie.tokenize_eq_nil_iff {trie : LetterTrie} {word : String} :
    trie.tokenize word = some [] ↔ word = "" := by
  constructor
  · intro split
    rw [tokenize, tokenizeFrom] at split
    split at split
    · next done =>
      rw [Cursor.isExhausted_iff, Cursor.rest_ofWord] at done
      exact String.toList_eq_nil_iff.mp done
    · split at split
      · split at split
        · obtain ⟨_, _, same⟩ := Option.map_eq_some_iff.mp split
          contradiction
        · contradiction
      · contradiction
  · rintro rfl
    exact tokenizeFrom_of_rest_nil rfl

namespace Transducer

variable {source : Source} {transducer : Transducer}

theorem indexes_of_load (loaded : load source = .ok transducer) :
    ∃ texts : List (List Char), texts.length < UInt16.size ∧ transducer.alphabet.Of texts ∧
      Alphabet.Indexes transducer.alphabet.symbols texts ∧
      transducer.trie = .ofAlphabet transducer.alphabet := by
  obtain ⟨used, -, _, _, _, _, -, -, ⟨texts, count, -, -, draft, added, same⟩, trie, -⟩ :=
    load_eq_ok_iff.mp loaded
  have indexes := Alphabet.Draft.took_nothing.indexes_addAll Alphabet.Draft.indexes_nothing added
  exact ⟨texts, count ▸ transducer.header.symbols.toNat_lt,
    same ▸ Alphabet.Draft.of_addAll added, same ▸ indexes, trie⟩

theorem alphabet_of_load (loaded : load source = .ok transducer) :
    ∃ texts : List (List Char), texts.length < UInt16.size ∧ transducer.alphabet.Of texts ∧
      transducer.trie = .ofAlphabet transducer.alphabet := by
  obtain ⟨texts, count, made, -, trie⟩ := indexes_of_load loaded
  exact ⟨texts, count, made, trie⟩

theorem literal_of_load (loaded : load source = .ok transducer) {word : String}
    {tokens : List Symbol} (split : transducer.tokenize word = some tokens) :
    ∀ token ∈ tokens, transducer.Literal token := by
  intro token mem
  obtain ⟨texts, count, made, trie⟩ := alphabet_of_load loaded
  rw [tokenize, trie, made.tokenize_eq_some_iff count] at split
  obtain ⟨text, literal⟩ := split.exists_literal mem
  exact ⟨made.literal_ne_zero literal, literal.isFlag⟩

end Transducer

end OptimizedLookup
