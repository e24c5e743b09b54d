import OptimizedLookup.Proofs.Loading.Failures

/-! The error for bytes that are no transducer. Several things may be wrong with a file, and it may
end early as well; what is reported is the first defect in the order of the bytes, unless the file
ends before the item that shows it is complete. -/
namespace OptimizedLookup

/-- The head and the texts of the first symbols are complete and have no defect, and `rest` comes
next. -/
structure Reaches (bytes block : List UInt8) (texts : List (List Char)) (rest : List UInt8) :
    Prop where
  head : Header.Opens bytes block (texts.flatMap Alphabet.terminated ++ rest)
  sound : Header.Sound block
  count : texts.length ≤ (word16At block 2).toNat
  noNul : ∀ text ∈ texts, '\x00' ∉ text
  values : ∀ values : List String, values.Nodup →
    (∀ value ∈ values, Alphabet.NamesValue texts value) → values.length ≤ 32767

/-- What is reported of bytes: the first check that fails, or the section in which they end before
the next check. -/
inductive FirstDefect : List UInt8 → LoadError → Prop
  | plainHead {bytes : List UInt8} (noMagic : ¬ Header.magic <+: bytes)
      (short : bytes.length < 56) : FirstDefect bytes (.endOfStream .header)
  | preamble {rest : List UInt8} (short : rest.length < 3) :
      FirstDefect (Header.magic ++ rest) (.endOfStream .headerPreamble)
  | separator {length rest : List UInt8} {byte : UInt8} (width : length.length = 2)
      (notNul : byte ≠ 0) :
      FirstDefect (Header.magic ++ (length ++ byte :: rest)) (.format (.invalidPreamble byte))
  | metadata {length rest : List UInt8} (width : length.length = 2)
      (short : rest.length < LittleEndian.value length) :
      FirstDefect (Header.magic ++ (length ++ 0 :: rest)) (.endOfStream .headerMetadata)
  | precededHead {length metadata rest : List UInt8} (width : length.length = 2)
      (announced : metadata.length = LittleEndian.value length) (short : rest.length < 56) :
      FirstDefect (Header.magic ++ (length ++ 0 :: (metadata ++ rest))) (.endOfStream .header)
  | symbols {bytes block rest : List UInt8} (head : Header.Opens bytes block rest)
      (none : word16At block 2 = 0) : FirstDefect bytes (.format .emptyAlphabet)
  | indexSize {bytes block rest : List UInt8} (head : Header.Opens bytes block rest)
      (some : word16At block 2 ≠ 0) (negative : 0x80000000 ≤ word32At block 4) :
      FirstDefect bytes
        (.format (.negativeTableSize .index ((word32At block 4).toNat - 0x100000000)))
  | transitionSize {bytes block rest : List UInt8} (head : Header.Opens bytes block rest)
      (some : word16At block 2 ≠ 0) (index : word32At block 4 < 0x80000000)
      (negative : 0x80000000 ≤ word32At block 8) :
      FirstDefect bytes
        (.format (.negativeTableSize .transition ((word32At block 8).toNat - 0x100000000)))
  | entry {bytes block rest : List UInt8} {texts : List (List Char)}
      (reaches : Reaches bytes block texts rest) (more : texts.length < (word16At block 2).toNat)
      (unclosed : 0 ∉ rest) : FirstDefect bytes (.endOfStream .alphabet)
  | entryText {bytes block body rest : List UInt8} {texts : List (List Char)} {index : Symbol}
      {fault : Utf8.Fault} (reaches : Reaches bytes block texts (body ++ 0 :: rest))
      (more : texts.length < (word16At block 2).toNat) (closed : 0 ∉ body)
      (place : index.toNat = texts.length) (noText : ∀ text, body ≠ Utf8.encode text)
      (found : Utf8.decode body = .error fault) :
      FirstDefect bytes (.format (.invalidSymbol index fault))
  | entryValue {bytes block rest : List UInt8} {texts : List (List Char)} {text : List Char}
      {flag : Flag.Spelling} {values : List String}
      (reaches : Reaches bytes block texts (Alphabet.terminated text ++ rest))
      (more : texts.length < (word16At block 2).toNat) (closed : '\x00' ∉ text)
      (later : texts ≠ []) (isFlag : Flag.Written text flag) (nodup : values.Nodup)
      (full : values.length = 32767)
      (known : ∀ value, value ∈ values ↔ Alphabet.NamesValue texts value)
      (new : String.ofList flag.value ∉ values) :
      FirstDefect bytes (.format .tooManyFlagValues)
  | indexTable {bytes block rest : List UInt8} {texts : List (List Char)}
      (reaches : Reaches bytes block texts rest) (all : texts.length = (word16At block 2).toNat)
      (short : rest.length < 6 * (word32At block 4).toNat) :
      FirstDefect bytes (.endOfStream .indexTable)
  | transitionTable {bytes block slots rest : List UInt8} {texts : List (List Char)}
      (reaches : Reaches bytes block texts (slots ++ rest))
      (all : texts.length = (word16At block 2).toNat)
      (index : slots.length = 6 * (word32At block 4).toNat)
      (short : rest.length <
        (if word32At block 20 ≠ 0 then 12 else 8) * (word32At block 8).toNat) :
      FirstDefect bytes (.endOfStream .transitionTable)

namespace Reaches

variable {bytes block rest : List UInt8} {texts : List (List Char)} {error : LoadError}

theorem took (reaches : Reaches bytes block texts rest) :
    ∃ draft, ({} : Alphabet.Draft).addAll texts = .ok draft ∧ draft.Took texts := by
  have all := Alphabet.Draft.took_nothing.addAll texts
  rw [List.nil_append, if_pos (Alphabet.length_valuesOf_le_iff.mpr reaches.values)] at all
  obtain ⟨draft, added, took, -⟩ := all
  exact ⟨draft, added, took⟩

theorem fails_entry (reaches : Reaches bytes block texts rest)
    (more : texts.length < (word16At block 2).toNat)
    (fails : ∀ (draft : Alphabet.Draft) (count : Nat), draft.Took texts →
      (draft.read (count + 1)).Fails rest error) :
    Transducer.read.Fails bytes error := by
  obtain ⟨head, byteLength, rfl, spells⟩ := reaches.head.spells reaches.sound
  obtain ⟨draft, added, took⟩ := reaches.took
  obtain ⟨count, total⟩ := Nat.exists_eq_add_of_lt more
  have entries := Alphabet.Draft.fails_behind reaches.noNul added (fails draft count took)
  rw [← Nat.add_assoc, ← total] at entries
  refine Loader.Fails.behind ?_ Header.reads_read Header.steady_read spells
  exact (entries.bind _).bind _

theorem fails_tables (reaches : Reaches bytes block texts rest)
    (all : texts.length = (word16At block 2).toNat)
    (fails : ∀ (byteLength : Nat) (alphabet : Alphabet),
      let header := Header.ofBlock block byteLength
      (IndexTable.read header.indexSize.toNat header.weighted >>= fun index =>
        TransitionTable.read header.transitionSize.toNat header.weighted >>= fun transitions =>
          pure (⟨header, alphabet, .ofAlphabet alphabet, index, transitions⟩ : Transducer)).Fails
        rest error) :
    Transducer.read.Fails bytes error := by
  obtain ⟨head, byteLength, rfl, spells⟩ := reaches.head.spells reaches.sound
  obtain ⟨draft, added, -⟩ := reaches.took
  refine Loader.Fails.behind ?_ Header.reads_read Header.steady_read spells
  exact Loader.Fails.behind (fails byteLength draft.finish) (Alphabet.reads_read _)
    (Alphabet.steady_read _) ⟨texts, all, reaches.noNul, rfl, draft, added, rfl⟩

end Reaches

theorem FirstDefect.fails {bytes : List UInt8} {error : LoadError}
    (defect : FirstDefect bytes error) : Transducer.read.Fails bytes error := by
  cases defect with
  | plainHead noMagic short => exact (Header.fails_plainHead noMagic short).bind _
  | preamble short =>
    exact (Header.fails_preceded ((Header.fails_preamble short).bind _)).bind _
  | separator width notNul =>
    exact (Header.fails_preceded ((Header.fails_separator width notNul).bind _)).bind _
  | metadata width short =>
    exact (Header.fails_preceded ((Header.fails_metadata width short).bind _)).bind _
  | precededHead width announced short =>
    exact (Header.fails_block width announced ((Loader.fails_exactly _ short).bind _)).bind _
  | symbols head none => exact (head.fails (Header.defect?_symbols none)).bind _
  | indexSize head some negative => exact (head.fails (Header.defect?_index some negative)).bind _
  | transitionSize head some index negative =>
    exact (head.fails (Header.defect?_transition some index negative)).bind _
  | entry reaches more unclosed =>
    exact reaches.fails_entry more fun _ _ _ => Alphabet.Draft.fails_unclosed unclosed
  | @entryText _ _ body rest texts index fault reaches more closed place noText found =>
    refine reaches.fails_entry more fun draft count took => ?_
    have same : draft.next = index := by
      rw [Alphabet.Draft.next, took.size, ← place, UInt16.ofNat_toNat]
    rw [List.append_cons, ← same]
    exact Alphabet.Draft.fails_entry closed (Alphabet.Draft.addBytes_of_fault found)
  | @entryValue _ _ rest texts text flag values reaches more closed later isFlag nodup full known
      new =>
    refine reaches.fails_entry more fun draft count took => ?_
    have size : (Alphabet.valuesOf texts).eraseDups.length = Alphabet.valueLimit := by
      refine Nat.le_antisymm took.bounded ?_
      have inside : values ⊆ (Alphabet.valuesOf texts).eraseDups := fun value mem =>
        List.mem_eraseDups.mpr (Alphabet.mem_valuesOf_iff.mpr ((known value).mp mem))
      have least := (List.subperm_of_subset nodup inside).length_le
      rwa [full] at least
    have overflows := (Alphabet.lt_length_valuesOf_concat_iff took.bounded).mpr
      ⟨later, flag, isFlag, size, mt (known _).mpr new⟩
    exact Alphabet.Draft.fails_entry (mt Utf8.zero_mem_encode_iff.mp closed)
      (Alphabet.Draft.addBytes_of_overflow took overflows)
  | indexTable reaches all short =>
    rw [Nat.mul_comm] at short
    exact reaches.fails_tables all fun byteLength alphabet =>
      (IndexTable.fails_read short _).bind _
  | @transitionTable _ block slots rest texts reaches all index short =>
    refine reaches.fails_tables all fun byteLength alphabet => ?_
    rw [Nat.mul_comm] at index
    rw [← Header.recordLength_ofBlock block byteLength, Nat.mul_comm] at short
    exact Loader.Fails.behind ((TransitionTable.fails_read short).bind _)
      (IndexTable.reads_read _ _) (IndexTable.steady_read _ _) ⟨index, rfl⟩

theorem exists_front {bytes : List UInt8} {count : Nat} (enough : ¬ bytes.length < count) :
    ∃ front back, bytes = front ++ back ∧ front.length = count :=
  ⟨_, _, (List.take_append_drop count bytes).symm,
    List.length_take_of_le (Nat.le_of_not_lt enough)⟩

theorem Header.defect_or_opens (bytes : List UInt8) :
    (∃ error, FirstDefect bytes error) ∨ ∃ block rest, Opens bytes block rest := by
  by_cases isMagic : magic <+: bytes
  · obtain ⟨behind, rfl⟩ := isMagic
    by_cases noPreamble : behind.length < 3
    · exact .inl ⟨_, .preamble noPreamble⟩
    obtain ⟨length, more, rfl, width⟩ := exists_front (mt (Nat.lt_trans · (by decide : 2 < 3))
      noPreamble)
    cases more with
    | nil =>
      rw [List.append_nil, width] at noPreamble
      exact absurd (by decide) noPreamble
    | cons byte more =>
      by_cases notNul : byte ≠ 0
      · exact .inl ⟨_, .separator width notNul⟩
      obtain rfl := Decidable.of_not_not notNul
      by_cases noMetadata : more.length < LittleEndian.value length
      · exact .inl ⟨_, .metadata width noMetadata⟩
      obtain ⟨metadata, behind, rfl, announced⟩ := exists_front noMetadata
      by_cases noBlock : behind.length < 56
      · exact .inl ⟨_, .precededHead width announced noBlock⟩
      obtain ⟨block, rest, rfl, whole⟩ := exists_front noBlock
      exact .inr ⟨block, rest, .preceded width announced whole⟩
  · by_cases short : bytes.length < 56
    · exact .inl ⟨_, .plainHead isMagic short⟩
    obtain ⟨block, rest, rfl, whole⟩ := exists_front short
    exact .inr ⟨block, rest, .plain whole fun front =>
      isMagic (front.trans (List.prefix_append block rest))⟩

theorem Header.Opens.defect_or_reaches {bytes block rest : List UInt8}
    (opens : Opens bytes block rest) :
    (∃ error, FirstDefect bytes error) ∨ Reaches bytes block [] rest := by
  by_cases none : word16At block 2 = 0
  · exact .inl ⟨_, .symbols opens none⟩
  by_cases index : word32At block 4 < 0x80000000
  · by_cases transition : word32At block 8 < 0x80000000
    · refine .inr ⟨opens, ⟨none, index, transition⟩, Nat.zero_le _, nofun, ?_⟩
      exact Alphabet.length_valuesOf_le_iff.mp (Nat.zero_le _)
    · exact .inl ⟨_, .transitionSize opens none index (UInt32.not_lt.mp transition)⟩
  · exact .inl ⟨_, .indexSize opens none (UInt32.not_lt.mp index)⟩

theorem Reaches.defect_or_next {bytes block rest : List UInt8} {texts : List (List Char)}
    (reaches : Reaches bytes block texts rest)
    (more : texts.length < (word16At block 2).toNat) :
    (∃ error, FirstDefect bytes error) ∨
      ∃ text behind, Reaches bytes block (texts ++ [text]) behind := by
  by_cases closes : 0 ∈ rest
  · obtain ⟨body, behind, rfl, closed⟩ := List.eq_append_cons_of_mem closes
    cases decoded : Utf8.decode body with
    | error fault =>
      have place : (UInt16.ofNat texts.length).toNat = texts.length :=
        UInt16.toNat_ofNat_of_lt' (Nat.lt_trans more (UInt16.toNat_lt _))
      refine .inl ⟨_, .entryText reaches more closed place (fun text same => ?_) decoded⟩
      rw [Utf8.decode_eq_ok_iff.mpr same] at decoded
      contradiction
    | ok text =>
      obtain rfl := Utf8.decode_eq_ok_iff.mp decoded
      have noNul := mt Utf8.zero_mem_encode_iff.mpr closed
      rw [List.append_cons] at reaches
      have few := Alphabet.length_valuesOf_le_iff.mpr reaches.values
      by_cases fits : (Alphabet.valuesOf (texts ++ [text])).eraseDups.length ≤ Alphabet.valueLimit
      · refine .inr ⟨text, behind, ?_, reaches.sound, ?_, ?_,
          Alphabet.length_valuesOf_le_iff.mp fits⟩
        · rw [List.flatMap_append, List.append_assoc, List.flatMap_singleton]
          exact reaches.head
        · rwa [List.length_append]
        · exact List.forall_mem_append.mpr ⟨reaches.noNul, List.forall_mem_singleton.mpr noNul⟩
      · obtain ⟨later, flag, isFlag, full, new⟩ :=
          (Alphabet.lt_length_valuesOf_concat_iff few).mp (Nat.lt_of_not_le fits)
        refine .inl ⟨_, .entryValue reaches more noNul later isFlag
          (Interning.nodup_eraseDups (Alphabet.valuesOf texts)) full (fun value => ?_) ?_⟩
        · rw [List.mem_eraseDups, Alphabet.mem_valuesOf_iff]
        · rwa [List.mem_eraseDups, Alphabet.mem_valuesOf_iff]
  · exact .inl ⟨_, .entry reaches more closes⟩

theorem Reaches.defect_or_all {bytes block rest : List UInt8} {texts : List (List Char)}
    (reaches : Reaches bytes block texts rest) :
    (∃ error, FirstDefect bytes error) ∨ ∃ all behind,
      Reaches bytes block all behind ∧ all.length = (word16At block 2).toNat := by
  generalize left : (word16At block 2).toNat - texts.length = count
  -- on the number of texts that are still to come
  induction count generalizing texts rest with
  | zero =>
    have within := reaches.count
    exact .inr ⟨texts, rest, reaches, by omega⟩
  | succ count ih =>
    obtain defect | ⟨text, behind, next⟩ := reaches.defect_or_next (by omega)
    · exact .inl defect
    · exact ih next (by rw [List.length_append, List.length_singleton]; omega)

theorem Reaches.defect_or_loads {bytes block rest : List UInt8} {texts : List (List Char)}
    (reaches : Reaches bytes block texts rest)
    (all : texts.length = (word16At block 2).toNat) :
    (∃ error, FirstDefect bytes error) ∨
      ∃ transducer, Transducer.ofBytes bytes = .ok transducer := by
  by_cases noIndex : rest.length < 6 * (word32At block 4).toNat
  · exact .inl ⟨_, .indexTable reaches all noIndex⟩
  obtain ⟨slots, behind, rfl, index⟩ := exists_front noIndex
  by_cases noRecords : behind.length <
      (if word32At block 20 ≠ 0 then 12 else 8) * (word32At block 8).toNat
  · exact .inl ⟨_, .transitionTable reaches all index noRecords⟩
  obtain ⟨records, more, rfl, transitions⟩ := exists_front noRecords
  obtain ⟨head, byteLength, rfl, spells⟩ := reaches.head.spells reaches.sound
  obtain ⟨draft, added, -⟩ := reaches.took
  rw [← Header.recordLength_ofBlock block byteLength, Nat.mul_comm] at transitions
  rw [Nat.mul_comm] at index
  let header := Header.ofBlock block byteLength
  refine .inr ⟨⟨header, draft.finish, .ofAlphabet draft.finish,
      ⟨IndexTable.decode slots #[], header.weighted⟩,
      ⟨TransitionTable.decode header.weighted records, header.weighted⟩⟩,
    Transducer.load_eq_ok_iff.mpr ⟨_, ?_, head, _, slots, records, rfl, spells,
      ⟨texts, all, reaches.noNul, rfl, draft, added, rfl⟩, rfl, ⟨index, rfl⟩, transitions, rfl⟩⟩
  refine ⟨more, ?_⟩
  rw [Source.contents_ofBytes]
  simp only [List.append_assoc]

theorem defect_or_loads (bytes : List UInt8) : (∃ error, FirstDefect bytes error) ∨
    ∃ transducer, Transducer.ofBytes bytes = .ok transducer := by
  obtain defect | ⟨block, rest, opens⟩ := Header.defect_or_opens bytes
  · exact .inl defect
  obtain defect | reaches := opens.defect_or_reaches
  · exact .inl defect
  obtain defect | ⟨texts, behind, reachesAll, all⟩ := Reaches.defect_or_all reaches
  · exact .inl defect
  exact reachesAll.defect_or_loads all

/-- Loading fails with an error exactly if that error is the report of the first defect. -/
theorem Transducer.ofBytes_eq_error_iff (bytes : List UInt8) (error : LoadError) :
    ofBytes bytes = .error error ↔ FirstDefect bytes error := by
  have fails {error : LoadError} (defect : FirstDefect bytes error) :
      ofBytes bytes = .error error := by
    have failed := defect.fails (.ofBytes bytes) (Source.contents_ofBytes bytes) rfl
    rw [ofBytes, load, failed]
    rfl
  constructor
  · intro failed
    obtain ⟨first, defect⟩ | ⟨transducer, loaded⟩ := defect_or_loads bytes
    · have same := (fails defect).symm.trans failed
      cases same
      exact defect
    · rw [loaded] at failed
      contradiction
  · exact fails

example : failure? (Transducer.ofBytes (Header.magic ++ [5, 0, 7])) =
    some (.format (.invalidPreamble 7)) := by
  decide +kernel

end OptimizedLookup
