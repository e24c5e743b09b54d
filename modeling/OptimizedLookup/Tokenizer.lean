import OptimizedLookup.Alphabet

/-! A trie of the spellings of symbols, by which a word is split: at each place the longest
spelling that the rest of the word begins with is taken. Nodes on one level form a chain; a node
holds the symbol whose spelling ends at its letter, if there is one. -/
namespace OptimizedLookup

structure Cursor where
  word : Array Char
  position : Nat := 0
  deriving DecidableEq

namespace Cursor

def ofWord (word : String) : Cursor := ⟨word.toList.toArray, 0⟩

def next (cursor : Cursor) : Option Char × Cursor :=
  match cursor.word[cursor.position]? with
  | some letter => (some letter, { cursor with position := cursor.position + 1 })
  | none => (none, cursor)

theorem word_next (cursor : Cursor) : cursor.next.2.word = cursor.word := by
  unfold next
  split <;> rfl

def back (cursor : Cursor) : Cursor := { cursor with position := cursor.position - 1 }

def moveTo (cursor : Cursor) (position : Nat) : Cursor :=
  { cursor with position := min position cursor.word.size }

def isExhausted (cursor : Cursor) : Bool := cursor.word.size ≤ cursor.position

end Cursor

/-- Spellings by their letters. A node has a letter, the symbol of the spelling that ends with it,
the spellings that go on from it, and the other letters that may stand in its place. -/
inductive LetterTrie where
  | empty
  | node (letter : Char) (symbol : Option Symbol) (below others : LetterTrie)
  deriving DecidableEq

namespace LetterTrie

def path : List Char → Symbol → LetterTrie
  | [], _ => .empty
  | [letter], symbol => .node letter (some symbol) .empty .empty
  | letter :: rest, symbol => .node letter none (path rest symbol) .empty

/-- Adds a spelling; a symbol that had it before is forgotten. An empty spelling is not added. -/
def insert : LetterTrie → List Char → Symbol → LetterTrie
  | .empty, spelling, symbol => path spelling symbol
  | trie, [], _ => trie
  | .node letter ending below others, first :: rest, symbol =>
    if first = letter then
      match rest with
      | [] => .node letter (some symbol) below others
      | _ :: _ => .node letter ending (below.insert rest symbol) others
    else .node letter ending below (others.insert (first :: rest) symbol)

/-- Reads the longest spelling at the cursor. A longer one is tried first; if it fails, the cursor
is moved back to the end of the shorter one. Where there is no spelling it ends where it was. -/
def find : LetterTrie → Cursor → Option Symbol × Cursor
  | .empty, cursor => (none, cursor)
  | .node letter ending below others, cursor =>
    match cursor.next with
    | (none, cursor) => (none, cursor)
    | (some first, after) =>
      if first = letter then
        match below.find after with
        | (some symbol, cursor) => (some symbol, cursor)
        | (none, failed) =>
          match ending with
          | some symbol => (some symbol, failed.moveTo after.position)
          | none => (none, failed.back)
      else others.find cursor

theorem word_find (trie : LetterTrie) (cursor : Cursor) :
    (trie.find cursor).2.word = cursor.word := by
  induction trie generalizing cursor with
  | empty => rfl
  | node letter ending below others ihBelow ihOthers =>
    have same := cursor.word_next
    rw [find]
    split
    · next read =>
      rw [read] at same
      exact same
    · next first after read =>
      rw [read] at same
      split
      · have deeper := (ihBelow after).trans same
        split
        · next found =>
          rw [found] at deeper
          exact deeper
        · next found =>
          rw [found] at deeper
          split <;> exact deeper
      · exact ihOthers cursor

def tokenizeFrom (trie : LetterTrie) (cursor : Cursor) : Option (List Symbol) :=
  if cursor.isExhausted then some []
  else
    match _found : trie.find cursor with
    | (some symbol, after) =>
      -- a spelling that is found lies past the cursor
      if cursor.position < after.position then (trie.tokenizeFrom after).map (symbol :: ·)
      else none
    | (none, _) => none
termination_by cursor.word.size - cursor.position
decreasing_by
  have same : after.word = cursor.word := by
    have kept := trie.word_find cursor
    rwa [_found] at kept
  simp only [Cursor.isExhausted, decide_eq_true_eq] at *
  rw [same]
  omega

def tokenize (trie : LetterTrie) (word : String) : Option (List Symbol) :=
  trie.tokenizeFrom (.ofWord word)

def ofAlphabet (alphabet : Alphabet) : LetterTrie :=
  (alphabet.keys.zipIdx.drop 1).foldl
    (fun trie (key, index) => trie.insert key.toList (UInt16.ofNat index)) .empty

end LetterTrie

end OptimizedLookup
