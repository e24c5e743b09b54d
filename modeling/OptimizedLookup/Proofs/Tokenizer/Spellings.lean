import OptimizedLookup.Tokenizer

/-! The trie as a table from spellings to symbols. Inserting sets one entry of the table, and reading
at a cursor takes the longest of all spellings in the table that the rest of the word begins with. -/
namespace OptimizedLookup

namespace Cursor

variable {cursor : Cursor} {first : Char} {more : List Char}

def rest (cursor : Cursor) : List Char := cursor.word.toList.drop cursor.position

def advance (cursor : Cursor) (count : Nat) : Cursor :=
  { cursor with position := cursor.position + count }

theorem rest_ofWord (word : String) : (ofWord word).rest = word.toList := rfl

theorem rest_advance (cursor : Cursor) (count : Nat) :
    (cursor.advance count).rest = cursor.rest.drop count :=
  List.drop_drop.symm

theorem advance_advance (cursor : Cursor) (front back : Nat) :
    (cursor.advance front).advance back = cursor.advance (front + back) := by
  rw [advance, advance, advance, Nat.add_assoc]

theorem isExhausted_iff : cursor.isExhausted = true ↔ cursor.rest = [] := by
  rw [isExhausted, rest, decide_eq_true_eq, List.drop_eq_nil_iff, Array.length_toList]

theorem next_of_rest_nil (done : cursor.rest = []) : cursor.next = (none, cursor) := by
  rw [next, Array.getElem?_eq_none (List.drop_eq_nil_iff.mp done)]

theorem next_of_rest_cons (read : cursor.rest = first :: more) :
    cursor.next = (some first, cursor.advance 1) := by
  have found : cursor.word[cursor.position]? = some first := by
    have head := congrArg List.head? read
    rwa [rest, List.head?_drop, Array.getElem?_toList] at head
  rw [next, found]
  rfl

theorem back_advance (cursor : Cursor) : (cursor.advance 1).back = cursor := rfl

theorem moveTo_advance (read : cursor.rest = first :: more) :
    (cursor.advance 1).moveTo (cursor.advance 1).position = cursor.advance 1 := by
  have within : cursor.position + 1 ≤ cursor.word.size := by
    have length := congrArg List.length read
    rw [rest, List.length_drop, List.length_cons, Array.length_toList] at length
    omega
  rw [moveTo, advance, Nat.min_eq_left within]

end Cursor

namespace LetterTrie

variable {trie below others : LetterTrie} {spelling text rest : List Char} {letter first : Char}
  {symbol : Symbol} {ending : Option Symbol}

def symbol? : LetterTrie → List Char → Option Symbol
  | .empty, _ => none
  | .node .., [] => none
  | .node letter ending below others, first :: rest =>
    if first = letter then
      if rest = [] then ending else below.symbol? rest
    else others.symbol? (first :: rest)

theorem symbol?_nil (trie : LetterTrie) : trie.symbol? [] = none := by
  cases trie <;> rfl

theorem symbol?_same (more : rest ≠ []) :
    (node letter ending below others).symbol? (letter :: rest) = below.symbol? rest := by
  rw [symbol?, if_pos rfl, if_neg more]

theorem symbol?_other (different : first ≠ letter) :
    (node letter ending below others).symbol? (first :: rest) = others.symbol? (first :: rest) := by
  rw [symbol?, if_neg different]

theorem symbol?_path (text : List Char) (symbol : Symbol) (present : spelling ≠ []) :
    (path text symbol).symbol? spelling = if spelling = text then some symbol else none := by
  induction text generalizing spelling with
  | nil => rw [if_neg present, path, symbol?]
  | cons letter text ih =>
    obtain ⟨first, rest, rfl⟩ := List.exists_cons_of_ne_nil present
    cases text with
    | nil =>
      simp only [path, symbol?, List.cons.injEq]
      grind
    | cons second text =>
      simp only [path, symbol?, List.cons.injEq]
      grind

theorem symbol?_insert (trie : LetterTrie) (text : List Char) (symbol : Symbol)
    (present : spelling ≠ []) : (trie.insert text symbol).symbol? spelling =
      if spelling = text then some symbol else trie.symbol? spelling := by
  induction trie generalizing text spelling with
  | empty => exact symbol?_path text symbol present
  | node letter ending below others ihBelow ihOthers =>
    obtain ⟨first, rest, rfl⟩ := List.exists_cons_of_ne_nil present
    cases text with
    | nil => exact (if_neg present).symm
    | cons head tail =>
      unfold insert
      by_cases same : head = letter
      · subst same
        rw [if_pos rfl]
        cases tail with
        | nil =>
          simp only [symbol?, List.cons.injEq]
          grind
        | cons second tail =>
          simp only [symbol?, List.cons.injEq]
          grind
      · rw [if_neg same]
        have aside := ihOthers (head :: tail) present
        simp only [symbol?, aside, List.cons.injEq]
        grind

structure Longest (trie : LetterTrie) (text : List Char) (symbol : Symbol)
    (spelling : List Char) : Prop where
  stored : trie.symbol? spelling = some symbol
  begins : spelling <+: text
  longest : ∀ longer other, longer <+: text → trie.symbol? longer = some other →
    longer.length ≤ spelling.length

def Misses (trie : LetterTrie) (text : List Char) : Prop :=
  ∀ spelling, spelling <+: text → trie.symbol? spelling = none

theorem misses_nil (trie : LetterTrie) : trie.Misses [] := by
  intro spelling begins
  rw [List.prefix_nil.mp begins, symbol?_nil]

theorem Misses.not_longest (misses : trie.Misses text) : ¬ trie.Longest text symbol spelling := by
  intro longest
  cases (misses spelling longest.begins).symm.trans longest.stored

theorem Longest.unique {other : Symbol} {longer : List Char}
    (longest : trie.Longest text symbol spelling) (again : trie.Longest text other longer) :
    symbol = other ∧ spelling = longer := by
  have length : spelling.length = longer.length :=
    Nat.le_antisymm (again.longest _ _ longest.begins longest.stored)
      (longest.longest _ _ again.begins again.stored)
  have inside := List.prefix_of_prefix_length_le longest.begins again.begins (Nat.le_of_eq length)
  obtain rfl : spelling = longer := inside.eq_of_length length
  exact ⟨Option.some.inj (longest.stored.symm.trans again.stored), rfl⟩

theorem Longest.onward (longest : below.Longest rest symbol spelling) :
    (node letter ending below others).Longest (letter :: rest) symbol (letter :: spelling) where
  stored := by
    have more : spelling ≠ [] := fun none => by
      have stored := longest.stored
      rw [none, symbol?_nil] at stored
      contradiction
    rw [symbol?_same more, longest.stored]
  begins := List.cons_prefix_cons.mpr ⟨rfl, longest.begins⟩
  longest := by
    intro longer other begins stored
    cases longer with
    | nil => exact Nat.zero_le _
    | cons first longer =>
      obtain ⟨rfl, onward⟩ := List.cons_prefix_cons.mp begins
      by_cases last : longer = []
      · subst last
        exact Nat.succ_le_succ (Nat.zero_le _)
      · rw [symbol?_same last] at stored
        exact Nat.succ_le_succ (longest.longest longer other onward stored)

theorem Misses.longest (misses : below.Misses rest) :
    (node letter (some symbol) below others).Longest (letter :: rest) symbol [letter] where
  stored := by rw [symbol?, if_pos rfl, if_pos rfl]
  begins := List.prefix_append [letter] rest
  longest := by
    intro longer other begins stored
    cases longer with
    | nil => exact Nat.zero_le _
    | cons first longer =>
      obtain ⟨rfl, onward⟩ := List.cons_prefix_cons.mp begins
      by_cases last : longer = []
      · subst last
        exact Nat.le_refl _
      · rw [symbol?_same last, misses longer onward] at stored
        contradiction

theorem Misses.node (misses : below.Misses rest) :
    (node letter none below others).Misses (letter :: rest) := by
  intro spelling begins
  cases spelling with
  | nil => exact symbol?_nil _
  | cons first spelling =>
    obtain ⟨rfl, onward⟩ := List.cons_prefix_cons.mp begins
    rw [symbol?, if_pos rfl, misses spelling onward, ite_self]

theorem symbol?_of_other (different : first ≠ letter) (begins : spelling <+: first :: rest) :
    (LetterTrie.node letter ending below others).symbol? spelling = others.symbol? spelling := by
  cases spelling with
  | nil => rw [symbol?_nil, symbol?_nil]
  | cons head spelling =>
    obtain ⟨rfl, -⟩ := List.cons_prefix_cons.mp begins
    exact symbol?_other different

theorem Longest.beside (different : first ≠ letter)
    (longest : others.Longest (first :: rest) symbol spelling) :
    (LetterTrie.node letter ending below others).Longest (first :: rest) symbol spelling where
  stored := (symbol?_of_other different longest.begins).trans longest.stored
  begins := longest.begins
  longest longer other begins stored :=
    longest.longest longer other begins ((symbol?_of_other different begins).symm.trans stored)

theorem find_longest (trie : LetterTrie) (cursor : Cursor) :
    (∃ symbol spelling, trie.Longest cursor.rest symbol spelling ∧
      trie.find cursor = (some symbol, cursor.advance spelling.length)) ∨
    trie.Misses cursor.rest ∧ trie.find cursor = (none, cursor) := by
  induction trie generalizing cursor with
  | empty => exact .inr ⟨fun _ _ => rfl, rfl⟩
  | node letter ending below others ihBelow ihOthers =>
    cases read : cursor.rest with
    | nil => exact .inr ⟨misses_nil _, by rw [find, Cursor.next_of_rest_nil read]⟩
    | cons first rest =>
      have onward : (cursor.advance 1).rest = rest := by
        rw [Cursor.rest_advance, read, List.drop_one, List.tail_cons]
      have deeper := ihBelow (cursor.advance 1)
      have aside := ihOthers cursor
      rw [read] at aside
      rw [onward] at deeper
      rw [find, Cursor.next_of_rest_cons read]
      by_cases same : first = letter
      · subst same
        obtain ⟨symbol, spelling, longest, found⟩ | ⟨misses, found⟩ := deeper
        · refine .inl ⟨symbol, first :: spelling, longest.onward, ?_⟩
          simp only [if_pos, found, Cursor.advance_advance, List.length_cons, Nat.add_comm]
        · -- the deeper search has left the cursor behind the letter it went on from
          cases ending with
          | some symbol =>
            refine .inl ⟨symbol, [first], misses.longest, ?_⟩
            simp only [if_pos, found, Cursor.moveTo_advance read, List.length_singleton]
          | none =>
            refine .inr ⟨misses.node, ?_⟩
            simp only [if_pos, found, Cursor.back_advance]
      · simp only [if_neg same]
        obtain ⟨symbol, spelling, longest, found⟩ | ⟨misses, found⟩ := aside
        · exact .inl ⟨symbol, spelling, longest.beside same, found⟩
        · refine .inr ⟨fun spelling begins => ?_, found⟩
          rw [symbol?_of_other same begins, misses spelling begins]

end LetterTrie

end OptimizedLookup
