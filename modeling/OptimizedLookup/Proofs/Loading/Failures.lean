import OptimizedLookup.Proofs.Flag.Naming
import OptimizedLookup.Proofs.Loading.Verdict

/-! Loaders that fail. An early loader fails on bytes whatever the later ones would read, and a later
one fails on what the earlier ones leave; so each section fails on what stands at its place, for a
defect or for want of bytes. -/
namespace OptimizedLookup

namespace Loader

variable {α β : Type} {loader : Loader α} {grammar : List UInt8 → α → Prop}
  {bytes used more : List UInt8} {value : α} {error : LoadError}

def Fails (loader : Loader α) (bytes : List UInt8) (error : LoadError) : Prop :=
  ∀ source : Source, source.contents = bytes → source.ending = .finished →
    loader.run source = .error error

theorem Steady.ending_eq (steady : loader.Steady) {source after : Source}
    (found : loader.run source = .ok (value, after)) : after.ending = source.ending := by
  obtain ⟨verdict, gives⟩ := steady source.contents
  have given := gives source [] (List.append_nil _).symm verdict.stands_nil
  cases verdict with
  | found other rest =>
    obtain ⟨left, same, -, ending⟩ := given
    rw [found] at same
    cases same
    exact ending
  | flawed error => rw [show loader.run source = _ from given] at found; contradiction
  | short part => rw [show loader.run source = _ from given] at found; contradiction

theorem fails_throw (error : LoadError) : (throw error : Loader α).Fails bytes error :=
  fun _ _ _ => rfl

theorem Fails.bind (fails : loader.Fails bytes error) (next : α → Loader β) :
    (loader >>= next).Fails bytes error :=
  fun source contents finished => run_bind_of_error next (fails source contents finished)

theorem Fails.behind {next : α → Loader β} (fails : (next value).Fails more error)
    (reads : loader.Reads grammar) (steady : loader.Steady) (spelled : grammar used value) :
    (loader >>= next).Fails (used ++ more) error := by
  intro source contents finished
  obtain ⟨after, found, left⟩ := reads.complete contents spelled
  rw [run_bind_of_ok found]
  exact fails after left ((steady.ending_eq found).trans finished)

theorem fails_read (part : Section) {demand : Demand}
    (unmet : ∀ used, used <+: bytes → ¬ demand.Meets used) :
    (Loader.read part demand).Fails bytes (.endOfStream part) := by
  intro source contents finished
  generalize drawn : demand.draw [] source.contents = result
  obtain ⟨left, moved, unread⟩ := result
  have given := gives_read part drawn
  by_cases met : left.met = true
  · obtain ⟨used, split, -, meets⟩ := Demand.meets_of_draw drawn met
    exact absurd meets (unmet used ⟨unread, split.symm.trans contents⟩)
  · rw [if_neg met] at given
    have failed : (Loader.read part demand).run source = .error (source.ending.toLoadError part) :=
      given
    rw [failed, finished]
    rfl

theorem fails_exactly (part : Section) {count : Nat} (short : bytes.length < count) :
    (Loader.read part (.exactly count)).Fails bytes (.endOfStream part) := by
  refine fails_read part fun used front exact => ?_
  have inside := front.length_le
  have whole : used.length = count := exact
  omega

theorem Fails.behind_exactly {next : List UInt8 → Loader β} {part : Section} {count : Nat}
    (fails : (next used).Fails more error) (exact : used.length = count) :
    (Loader.read part (.exactly count) >>= next).Fails (used ++ more) error :=
  fails.behind (reads_read part _) (steady_read part _) ⟨rfl, exact⟩

theorem steady_readByte (part : Section) : (Loader.readByte part).Steady :=
  (steady_read _ _).bind fun _ => steady_pure _

theorem Fails.behind_byte {next : UInt8 → Loader β} {part : Section} {byte : UInt8}
    (fails : (next byte).Fails more error) :
    (Loader.readByte part >>= next).Fails (byte :: more) error := by
  have single : [byte].length = 1 := rfl
  exact fails.behind (reads_exactly part 1 fun bytes => bytes.headD 0) (steady_readByte part)
    ⟨single, rfl⟩

end Loader

namespace Header

/-- The bytes begin with a head: the counts and properties in `block`, and `rest` behind them. -/
inductive Opens : (bytes block rest : List UInt8) → Prop
  | plain {block rest : List UInt8} (whole : block.length = 56) (noMagic : ¬ magic <+: block) :
      Opens (block ++ rest) block rest
  | preceded {length metadata block rest : List UInt8} (width : length.length = 2)
      (announced : metadata.length = LittleEndian.value length) (whole : block.length = 56) :
      Opens (magic ++ (length ++ 0 :: (metadata ++ (block ++ rest)))) block rest

structure Sound (block : List UInt8) : Prop where
  symbols : word16At block 2 ≠ 0
  index : word32At block 4 < 0x80000000
  transition : word32At block 8 < 0x80000000

variable {bytes block rest length metadata : List UInt8} {error : LoadError}

theorem fails_preamble (short : rest.length < 3) :
    readPreamble.Fails rest (.endOfStream .headerPreamble) := by
  by_cases first : rest.length < 2
  · exact (Loader.fails_exactly _ first).bind _
  · -- the length is there, but not the byte behind it
    have width : (rest.take 2).length = 2 := by
      rw [List.length_take]
      omega
    have none : (rest.drop 2).length < 1 := by
      rw [List.length_drop]
      omega
    have fails : readPreamble.Fails (rest.take 2 ++ rest.drop 2) (.endOfStream .headerPreamble) :=
      (((Loader.fails_exactly _ none).bind _).bind _).behind_exactly width
    rwa [List.take_append_drop] at fails

theorem fails_separator {byte : UInt8} (width : length.length = 2) (notNul : byte ≠ 0) :
    readPreamble.Fails (length ++ byte :: rest) (.format (.invalidPreamble byte)) := by
  refine Loader.Fails.behind_exactly (Loader.Fails.behind_byte ?_) width
  rw [if_pos notNul]
  exact (Loader.fails_throw _).bind _

theorem fails_metadata (width : length.length = 2)
    (short : rest.length < LittleEndian.value length) :
    readPreamble.Fails (length ++ 0 :: rest) (.endOfStream .headerMetadata) := by
  refine Loader.Fails.behind_exactly (Loader.Fails.behind_byte ?_) width
  exact (Loader.fails_exactly _ short).bind _

theorem fails_preceded (fails : (readPreamble >>= fun metadata =>
      Loader.read .header (.exactly fixedLength) >>= fun block =>
        liftM (checked (ofBlock block (fixedLength + preambleLength + metadata)))).Fails
      rest error) :
    Header.read.Fails (magic ++ rest) error := by
  have probed : magic.length = magic.length := rfl
  refine Loader.Fails.behind_exactly ?_ probed
  rwa [if_pos rfl]

theorem fails_block (width : length.length = 2)
    (announced : metadata.length = LittleEndian.value length)
    (fails : (Loader.read .header (.exactly fixedLength) >>= fun block =>
      liftM (checked (ofBlock block (fixedLength + preambleLength + metadata.length)))).Fails
      rest error) :
    Header.read.Fails (magic ++ (length ++ 0 :: (metadata ++ rest))) error := by
  have split : length ++ 0 :: (metadata ++ rest) = length ++ [0] ++ metadata ++ rest := by simp
  rw [split]
  apply fails_preceded
  exact Loader.Fails.behind fails reads_readPreamble steady_readPreamble
    ⟨length, metadata, rfl, width, announced, rfl⟩

theorem fails_plain {probe : List UInt8} (probed : probe.length = magic.length)
    (noMagic : probe ≠ magic)
    (fails : (Loader.read .header (.exactly (fixedLength - magic.length)) >>= fun rest =>
      liftM (checked (ofBlock (probe ++ rest) fixedLength))).Fails rest error) :
    Header.read.Fails (probe ++ rest) error := by
  refine Loader.Fails.behind_exactly ?_ probed
  rwa [if_neg noMagic]

theorem length_take_magic (enough : magic.length ≤ bytes.length) :
    (bytes.take magic.length).length = magic.length := by
  rw [List.length_take]
  exact Nat.min_eq_left enough

theorem take_ne_magic (noMagic : ¬ magic <+: bytes) : bytes.take magic.length ≠ magic :=
  fun isMagic => noMagic (List.prefix_iff_eq_take.mpr isMagic.symm)

theorem fails_plainHead (noMagic : ¬ magic <+: bytes) (short : bytes.length < 56) :
    Header.read.Fails bytes (.endOfStream .header) := by
  by_cases probed : bytes.length < magic.length
  · exact (Loader.fails_exactly _ probed).bind _
  · have left : (bytes.drop magic.length).length < fixedLength - magic.length := by
      rw [List.length_drop]
      exact Nat.sub_lt_sub_right (Nat.le_of_not_lt probed) short
    have fails := fails_plain (length_take_magic (Nat.le_of_not_lt probed))
      (take_ne_magic noMagic) ((Loader.fails_exactly .header left).bind _)
    rwa [List.take_append_drop] at fails

theorem fails_checked {header : Header} {defect : FormatError}
    (defective : header.defect? = some defect) :
    (liftM header.checked : Loader Header).Fails bytes (.format defect) := by
  rw [checked, defective]
  exact Loader.fails_throw _

theorem Opens.fails (opens : Opens bytes block rest) {defect : FormatError}
    (defective : ∀ length, (ofBlock block length).defect? = some defect) :
    Header.read.Fails bytes (.format defect) := by
  cases opens with
  | plain whole noMagic =>
    have enough : magic.length ≤ block.length := by
      rw [whole]
      decide
    have left : (block.drop magic.length).length = fixedLength - magic.length := by
      rw [List.length_drop, whole]
      rfl
    have checks : (liftM (checked (ofBlock
        (block.take magic.length ++ block.drop magic.length) fixedLength)) : Loader Header).Fails
        rest (.format defect) := by
      rw [List.take_append_drop]
      exact fails_checked (defective _)
    have fails := fails_plain (length_take_magic enough) (take_ne_magic noMagic)
      (checks.behind_exactly left)
    rwa [← List.append_assoc, List.take_append_drop] at fails
  | @preceded length metadata _ _ width announced whole =>
    have checks : (liftM (checked _) : Loader Header).Fails rest (.format defect) := fails_checked
      (defective (fixedLength + preambleLength + metadata.length))
    exact fails_block width announced (checks.behind_exactly whole)

theorem toInt_toInt32 {word : UInt32} (negative : 0x80000000 ≤ word) :
    word.toInt32.toInt = word.toNat - 0x100000000 := by
  have least : 0x80000000 ≤ word.toNat := UInt32.le_iff_toNat_le.mp negative
  have below := word.toNat_lt
  change word.toBitVec.toInt = _
  rw [BitVec.toInt_eq_toNat_cond, if_neg]
  · rfl
  · change ¬ 2 * word.toNat < _
    omega

theorem defect?_symbols (none : word16At block 2 = 0) (byteLength : Nat) :
    (ofBlock block byteLength).defect? = some .emptyAlphabet :=
  if_pos none

theorem defect?_index (some : word16At block 2 ≠ 0) (negative : 0x80000000 ≤ word32At block 4)
    (byteLength : Nat) : (ofBlock block byteLength).defect? =
      .some (.negativeTableSize .index ((word32At block 4).toNat - 0x100000000)) := by
  rw [← toInt_toInt32 negative]
  exact (if_neg some).trans (if_pos negative)

theorem defect?_transition (some : word16At block 2 ≠ 0) (index : word32At block 4 < 0x80000000)
    (negative : 0x80000000 ≤ word32At block 8) (byteLength : Nat) :
    (ofBlock block byteLength).defect? =
      .some (.negativeTableSize .transition ((word32At block 8).toNat - 0x100000000)) := by
  rw [← toInt_toInt32 negative]
  exact (if_neg some).trans ((if_neg (UInt32.not_le.mpr index)).trans (if_pos negative))

theorem Sound.defect?_eq_none (sound : Sound block) (byteLength : Nat) :
    (ofBlock block byteLength).defect? = none :=
  (if_neg sound.symbols).trans ((if_neg (UInt32.not_le.mpr sound.index)).trans
    (if_neg (UInt32.not_le.mpr sound.transition)))

theorem recordLength_ofBlock (block : List UInt8) (byteLength : Nat) :
    TransitionTable.recordLength (ofBlock block byteLength).weighted =
      if word32At block 20 ≠ 0 then 12 else 8 := by
  have stored : (ofBlock block byteLength).weighted = (word32At block 20 != 0) := by
    rw [Bool.eq_iff_iff, bne_iff_ne, ne_eq, ← UInt32.toNat_inj, word32At,
      UInt32.toNat_ofNat_of_lt' (field_lt block 20 4)]
    exact bne_iff_ne
  rw [stored, TransitionTable.recordLength]
  simp only [bne_iff_ne]

theorem Opens.spells (opens : Opens bytes block rest) (sound : Sound block) :
    ∃ head byteLength, bytes = head ++ rest ∧ Spells head (ofBlock block byteLength) := by
  cases opens with
  | plain whole noMagic =>
    exact ⟨block, _, rfl, .plain whole (take_ne_magic noMagic) (sound.defect?_eq_none _)⟩
  | @preceded length metadata _ _ width announced whole =>
    refine ⟨_, _, ?_, .preceded width announced whole (sound.defect?_eq_none _)⟩
    simp only [List.append_assoc, List.cons_append, List.nil_append]

end Header

namespace Alphabet

variable {draft next : Draft} {texts : List (List Char)} {text : List Char}
  {body rest : List UInt8} {count : Nat}

theorem length_valuesOf_le_iff : (valuesOf texts).eraseDups.length ≤ valueLimit ↔
    ∀ values : List String, values.Nodup → (∀ value ∈ values, NamesValue texts value) →
      values.length ≤ 32767 := by
  rw [← Nat.not_lt, lt_length_valuesOf_iff]
  constructor
  · intro none values nodup named
    exact Nat.le_of_not_lt fun more => none ⟨values, nodup, more, named⟩
  · rintro all ⟨values, nodup, more, named⟩
    exact Nat.not_lt.mpr (all values nodup named) more

theorem valuesOf_concat (later : texts ≠ []) (text : List Char) : valuesOf (texts ++ [text]) =
    valuesOf texts ++ (Flag.Spelling.ofText? text).toList.map fun flag =>
      String.ofList flag.value := by
  rw [valuesOf, flagsOf_concat later, List.map_append, valuesOf]

theorem lt_length_valuesOf_concat_iff (few : (valuesOf texts).eraseDups.length ≤ valueLimit) :
    valueLimit < (valuesOf (texts ++ [text])).eraseDups.length ↔
      texts ≠ [] ∧ ∃ flag, Flag.Written text flag ∧
        (valuesOf texts).eraseDups.length = valueLimit ∧
        ¬ NamesValue texts (String.ofList flag.value) := by
  by_cases first : texts = []
  · subst first
    exact iff_of_false (Nat.not_lt.mpr (Nat.zero_le _)) fun ⟨later, _⟩ => later rfl
  rw [valuesOf_concat first]
  cases isFlag : Flag.Spelling.ofText? text with
  | none =>
    rw [Option.toList_none, List.map_nil, List.append_nil]
    refine iff_of_false (Nat.not_lt.mpr few) ?_
    rintro ⟨-, flag, written, -⟩
    exact Flag.Spelling.ofText?_eq_none_iff.mp isFlag flag written
  | some flag =>
    rw [Option.toList_some, List.map_singleton, Interning.eraseDups_concat]
    simp only [← mem_valuesOf_iff]
    have written := Flag.Spelling.written_of_ofText? isFlag
    by_cases known : String.ofList flag.value ∈ valuesOf texts
    · rw [if_pos known]
      refine iff_of_false (Nat.not_lt.mpr few) ?_
      rintro ⟨-, other, writtenOther, -, new⟩
      rw [Flag.Spelling.ofText?_of_written writtenOther] at isFlag
      cases isFlag
      exact new known
    · rw [if_neg known, List.length_append, List.length_singleton]
      constructor
      · intro more
        exact ⟨first, flag, written, by omega, known⟩
      · rintro ⟨-, -, -, full, -⟩
        omega

namespace Draft

theorem fails_unclosed (unclosed : 0 ∉ rest) :
    (draft.read (count + 1)).Fails rest (.endOfStream .alphabet) := by
  refine (Loader.fails_read _ ?_).bind _
  rintro _ front ⟨body, rfl, -⟩
  exact unclosed (front.subset (List.mem_append_right _ (List.mem_singleton_self 0)))

theorem fails_entry {error : FormatError} (closed : 0 ∉ body)
    (refused : draft.addBytes (body ++ [0]) = .error error) :
    (draft.read (count + 1)).Fails (body ++ [0] ++ rest) (.format error) := by
  have refuses : (resume count (draft.addBytes (body ++ [0]))).Fails rest (.format error) := by
    rw [refused]
    exact Loader.fails_throw _
  exact Loader.Fails.behind refuses (Loader.reads_read _ _) (Loader.steady_read _ _)
    ⟨rfl, body, rfl, closed⟩

theorem fails_behind {error : LoadError} (noNul : ∀ text ∈ texts, '\x00' ∉ text)
    (added : draft.addAll texts = .ok next) (fails : (next.read count).Fails rest error) :
    (draft.read (texts.length + count)).Fails (texts.flatMap terminated ++ rest) error := by
  induction texts generalizing draft with
  | nil =>
    cases added
    rwa [List.length_nil, Nat.zero_add]
  | cons text texts ih =>
    obtain ⟨cleanText, cleanRest⟩ := List.forall_mem_cons.mp noNul
    rw [addAll, List.foldlM_cons] at added
    cases addedText : draft.addBytes (terminated text) with
    | error error => rw [addedText] at added; contradiction
    | ok middle =>
      rw [addedText] at added
      obtain ⟨clean, -⟩ := addBytes_eq_ok_iff.mpr ⟨text, cleanText, rfl, addedText⟩
      have onward : (resume (texts.length + count) (draft.addBytes (terminated text))).Fails
          (texts.flatMap terminated ++ rest) error := by
        rw [addedText]
        exact ih cleanRest added
      rw [List.flatMap_cons, List.append_assoc, List.length_cons, Nat.succ_add]
      exact Loader.Fails.behind onward (Loader.reads_read _ _) (Loader.steady_read _ _)
        ⟨rfl, _, rfl, clean⟩

theorem addBytes_of_fault {fault : Utf8.Fault} (found : Utf8.decode body = .error fault) :
    draft.addBytes (body ++ [0]) = .error (.invalidSymbol draft.next fault) := by
  rw [addBytes, List.dropLast_concat, found]

theorem addBytes_of_overflow (took : draft.Took texts)
    (more : valueLimit < (valuesOf (texts ++ [text])).eraseDups.length) :
    draft.addBytes (terminated text) = .error .tooManyFlagValues := by
  have added := (took.bytes (draft.byteLength + (terminated text).length)).add text
  rwa [if_neg (Nat.not_le.mpr more), ← addBytes_terminated] at added

end Draft

end Alphabet

theorem IndexTable.fails_read {rest : List UInt8} {size : Nat}
    (short : rest.length < size * slotLength) (weighted : Bool) :
    (IndexTable.read size weighted).Fails rest (.endOfStream .indexTable) :=
  (Loader.fails_exactly .indexTable short).bind _

theorem IndexTable.steady_read (size : Nat) (weighted : Bool) :
    (IndexTable.read size weighted).Steady :=
  (Loader.steady_read _ _).bind fun _ => Loader.steady_pure _

theorem TransitionTable.fails_read {rest : List UInt8} {size : Nat} {weighted : Bool}
    (short : rest.length < size * recordLength weighted) :
    (TransitionTable.read size weighted).Fails rest (.endOfStream .transitionTable) :=
  (Loader.fails_exactly .transitionTable short).bind _

end OptimizedLookup
