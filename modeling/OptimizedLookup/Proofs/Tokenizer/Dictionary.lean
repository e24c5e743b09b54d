import OptimizedLookup.Proofs.Tokenizer.Spellings

/-! Tries filled by any sequence of additions, the trie of an alphabet among them. All that matters of
the sequence is which symbol each spelling was given last: reading takes the longest spelling that
fits and returns that symbol, and a literal of an alphabet has the greatest of those that print it. -/
namespace OptimizedLookup.LetterTrie

def ofSpellings (added : List (List Char × Symbol)) : LetterTrie :=
  added.foldl (fun trie pair => trie.insert pair.1 pair.2) .empty

def AddedLast (added : List (List Char × Symbol)) (spelling : List Char) (symbol : Symbol) : Prop :=
  ∃ before after, added = before ++ (spelling, symbol) :: after ∧
    ∀ other, (spelling, other) ∉ after

structure LongestAdded (added : List (List Char × Symbol)) (text spelling : List Char) : Prop where
  known : spelling ∈ added.map Prod.fst
  present : spelling ≠ []
  begins : spelling <+: text
  longest : ∀ other ∈ added.map Prod.fst, other <+: text → other.length ≤ spelling.length

variable {added more : List (List Char × Symbol)} {first : List Char × Symbol} {symbol : Symbol}
  {spelling text : List Char}

theorem addedLast_cons : AddedLast (first :: more) spelling symbol ↔
    AddedLast more spelling symbol ∨
      first = (spelling, symbol) ∧ ∀ other, (spelling, other) ∉ more := by
  constructor
  · rintro ⟨before, after, split, last⟩
    cases before with
    | nil =>
      obtain ⟨same, rfl⟩ := List.cons.inj split
      exact .inr ⟨same, last⟩
    | cons head before => exact .inl ⟨before, after, (List.cons.inj split).2, last⟩
  · rintro (⟨before, after, rfl, last⟩ | ⟨rfl, last⟩)
    · exact ⟨first :: before, after, rfl, last⟩
    · exact ⟨[], more, rfl, last⟩

theorem AddedLast.known (last : AddedLast added spelling symbol) :
    spelling ∈ added.map Prod.fst := by
  obtain ⟨before, after, rfl, -⟩ := last
  simp

theorem exists_addedLast (known : spelling ∈ added.map Prod.fst) :
    ∃ symbol, AddedLast added spelling symbol := by
  induction added with
  | nil => contradiction
  | cons first more ih =>
    by_cases later : spelling ∈ more.map Prod.fst
    · obtain ⟨symbol, last⟩ := ih later
      exact ⟨symbol, addedLast_cons.mpr (.inl last)⟩
    · have same : spelling = first.1 := (List.mem_cons.mp known).resolve_right later
      refine ⟨first.2, addedLast_cons.mpr (.inr ⟨by rw [same], fun other mem => ?_⟩)⟩
      exact later (List.mem_map_of_mem mem)

theorem symbol?_foldl (trie : LetterTrie) (added : List (List Char × Symbol))
    (present : spelling ≠ []) :
    (added.foldl (fun trie pair => trie.insert pair.1 pair.2) trie).symbol? spelling =
        some symbol ↔
      AddedLast added spelling symbol ∨
        (∀ other, (spelling, other) ∉ added) ∧ trie.symbol? spelling = some symbol := by
  induction added generalizing trie with
  | nil => simp [AddedLast]
  | cons first more ih =>
    obtain ⟨given, number⟩ := first
    rw [List.foldl_cons, ih, symbol?_insert trie _ _ present, addedLast_cons]
    simp only [List.mem_cons, Prod.mk.injEq]
    grind

theorem symbol?_ofSpellings_eq_some_iff (present : spelling ≠ []) :
    (ofSpellings added).symbol? spelling = some symbol ↔ AddedLast added spelling symbol := by
  rw [ofSpellings, symbol?_foldl .empty added present]
  simp [symbol?]

theorem symbol?_ofSpellings_eq_none_iff (present : spelling ≠ []) :
    (ofSpellings added).symbol? spelling = none ↔ spelling ∉ added.map Prod.fst := by
  rw [Option.eq_none_iff_forall_ne_some]
  constructor
  · intro none known
    obtain ⟨symbol, last⟩ := exists_addedLast known
    exact none symbol ((symbol?_ofSpellings_eq_some_iff present).mpr last)
  · intro absent symbol stored
    exact absent ((symbol?_ofSpellings_eq_some_iff present).mp stored).known

theorem longest_ofSpellings_iff : (ofSpellings added).Longest text symbol spelling ↔
    LongestAdded added text spelling ∧ AddedLast added spelling symbol := by
  constructor
  · intro longest
    have present : spelling ≠ [] := by
      rintro rfl
      cases (symbol?_nil _).symm.trans longest.stored
    have last := (symbol?_ofSpellings_eq_some_iff present).mp longest.stored
    refine ⟨⟨last.known, present, longest.begins, fun other known begins => ?_⟩, last⟩
    by_cases empty : other = []
    · exact empty ▸ Nat.zero_le _
    · obtain ⟨given, lastOther⟩ := exists_addedLast known
      exact longest.longest other given begins
        ((symbol?_ofSpellings_eq_some_iff empty).mpr lastOther)
  · rintro ⟨longest, last⟩
    refine ⟨(symbol?_ofSpellings_eq_some_iff longest.present).mpr last, longest.begins, ?_⟩
    intro longer other begins stored
    by_cases empty : longer = []
    · exact empty ▸ Nat.zero_le _
    · exact longest.longest longer ((symbol?_ofSpellings_eq_some_iff empty).mp stored).known begins

theorem misses_ofSpellings_iff : (ofSpellings added).Misses text ↔
    ∀ spelling ∈ added.map Prod.fst, spelling ≠ [] → ¬ spelling <+: text := by
  constructor
  · intro misses spelling known present begins
    exact (symbol?_ofSpellings_eq_none_iff present).mp (misses spelling begins) known
  · intro none spelling begins
    by_cases empty : spelling = []
    · rw [empty, symbol?_nil]
    · exact (symbol?_ofSpellings_eq_none_iff empty).mpr fun known =>
        none spelling known empty begins

theorem ofSpellings_filter (added : List (List Char × Symbol)) :
    ofSpellings (added.filter fun pair => pair.1 ≠ []) = ofSpellings added := by
  rw [ofSpellings, ofSpellings, List.foldl_filter]
  congr 1
  funext trie pair
  obtain ⟨spelling, symbol⟩ := pair
  cases spelling with
  | nil => cases trie <;> rfl
  | cons => rfl

theorem ofAlphabet_eq_ofSpellings (alphabet : Alphabet) :
    ofAlphabet alphabet = ofSpellings
      ((alphabet.keys.tail.zipIdx 1).map fun pair => (pair.1.toList, UInt16.ofNat pair.2)) := by
  rw [ofAlphabet, ofSpellings, List.foldl_map, List.drop_one, List.tail_zipIdx]

theorem addedLast_zipIdx {keys : List String} {start : Nat}
    (last : AddedLast ((keys.zipIdx start).map fun pair => (pair.1.toList, UInt16.ofNat pair.2))
      spelling symbol) :
    ∃ place : Nat, keys[place]? = some (String.ofList spelling) ∧
      symbol = UInt16.ofNat (start + place) ∧
      ∀ later : Nat, keys[later]? = some (String.ofList spelling) → later ≤ place := by
  induction keys generalizing start with
  | nil => cases last.known
  | cons key keys ih =>
    rw [List.zipIdx_cons, List.map_cons, addedLast_cons] at last
    rcases last with last | ⟨same, none⟩
    · obtain ⟨place, found, rfl, latest⟩ := ih last
      refine ⟨place + 1, found, by rw [Nat.add_assoc, Nat.add_comm 1], fun later again => ?_⟩
      cases later with
      | zero => exact Nat.zero_le _
      | succ later => exact Nat.succ_le_succ (latest later again)
    · obtain ⟨rfl, rfl⟩ := Prod.mk.inj same
      rw [String.ofList_toList]
      refine ⟨0, rfl, rfl, fun later again => ?_⟩
      cases later with
      | zero => exact Nat.le_refl _
      | succ later =>
        refine absurd (List.mem_map.mpr ⟨(key, start + 1 + later), ?_, rfl⟩) (none _)
        exact List.mk_add_mem_zipIdx_iff_getElem?.mpr again

theorem symbol?_ofAlphabet (alphabet : Alphabet) (present : spelling ≠ []) :
    (∃ index : Nat, index ≠ 0 ∧ alphabet.keys[index]? = some (String.ofList spelling) ∧
      (ofAlphabet alphabet).symbol? spelling = some (UInt16.ofNat index) ∧
      ∀ later : Nat, alphabet.keys[later]? = some (String.ofList spelling) → later ≤ index) ∨
    (∀ index : Nat, index ≠ 0 → alphabet.keys[index]? ≠ some (String.ofList spelling)) ∧
      (ofAlphabet alphabet).symbol? spelling = none := by
  have shifted (place : Nat) : alphabet.keys.tail[place]? = alphabet.keys[place + 1]? :=
    List.getElem?_tail
  rw [ofAlphabet_eq_ofSpellings]
  cases stored : (ofSpellings _).symbol? spelling with
  | some symbol =>
    obtain ⟨place, found, rfl, latest⟩ :=
      addedLast_zipIdx ((symbol?_ofSpellings_eq_some_iff present).mp stored)
    refine .inl ⟨place + 1, Nat.succ_ne_zero _, (shifted place).symm.trans found, ?_, ?_⟩
    · rw [Nat.add_comm]
    · intro later again
      cases later with
      | zero => exact Nat.zero_le _
      | succ later => exact Nat.succ_le_succ (latest later ((shifted later).trans again))
  | none =>
    refine .inr ⟨fun index nonzero found => ?_, rfl⟩
    obtain ⟨place, rfl⟩ := Nat.exists_eq_succ_of_ne_zero nonzero
    apply (symbol?_ofSpellings_eq_none_iff present).mp stored
    rw [List.map_map]
    refine List.mem_map.mpr ⟨(String.ofList spelling, 1 + place), ?_, String.toList_ofList⟩
    exact List.mk_add_mem_zipIdx_iff_getElem?.mpr ((shifted place).trans found)

/-- Whatever spellings were added, the longest one at the cursor is read, with the symbol that it was
given last, and the cursor moves behind it. If none fits the cursor stays. -/
theorem find_ofSpellings (added : List (List Char × Symbol)) (cursor : Cursor) :
    (∀ symbol after, (ofSpellings added).find cursor = (some symbol, after) ↔
      ∃ spelling, LongestAdded added cursor.rest spelling ∧ AddedLast added spelling symbol ∧
        after = cursor.advance spelling.length) ∧
    (∀ after, (ofSpellings added).find cursor = (none, after) ↔
      (∀ spelling ∈ added.map Prod.fst, spelling ≠ [] → ¬ spelling <+: cursor.rest) ∧
        after = cursor) ∧
    (cursor.isExhausted = true → (ofSpellings added).find cursor = (none, cursor)) ∧
    ofSpellings (added.filter fun pair => pair.1 ≠ []) = ofSpellings added := by
  have outcome := (ofSpellings added).find_longest cursor
  refine ⟨fun symbol after => ?_, fun after => ?_, fun done => ?_, ofSpellings_filter added⟩
  · simp only [← and_assoc, ← longest_ofSpellings_iff]
    constructor
    · intro found
      obtain ⟨_, spelling, longest, same⟩ | ⟨-, same⟩ := outcome
      · cases found.symm.trans same
        exact ⟨spelling, longest, rfl⟩
      · cases found.symm.trans same
    · rintro ⟨spelling, longest, rfl⟩
      obtain ⟨other, longer, again, same⟩ | ⟨misses, -⟩ := outcome
      · obtain ⟨rfl, rfl⟩ := longest.unique again
        exact same
      · exact absurd longest misses.not_longest
  · rw [← misses_ofSpellings_iff]
    constructor
    · intro found
      obtain ⟨_, _, -, same⟩ | ⟨misses, same⟩ := outcome
      · cases found.symm.trans same
      · cases found.symm.trans same
        exact ⟨misses, rfl⟩
    · rintro ⟨misses, rfl⟩
      obtain ⟨_, _, longest, -⟩ | ⟨-, same⟩ := outcome
      · exact absurd longest misses.not_longest
      · exact same
  · obtain ⟨_, _, longest, -⟩ | ⟨-, same⟩ := outcome
    · rw [Cursor.isExhausted_iff.mp done] at longest
      exact absurd longest (misses_nil _).not_longest
    · exact same

end OptimizedLookup.LetterTrie
