import OptimizedLookup.Alphabet

/-! Interning numbers the distinct names of what it was given, in the order in which they came. -/
namespace OptimizedLookup.Interning

theorem eraseDups_concat {α : Type} [DecidableEq α] (used : List α) (name : α) :
    (used ++ [name]).eraseDups =
      if name ∈ used then used.eraseDups else used.eraseDups ++ [name] := by
  rw [List.eraseDups_append]
  by_cases known : name ∈ used <;> simp [known, List.removeAll, List.eraseDups_cons]

theorem idxOf_eraseDups_append {used : List String} {name : String} (known : name ∈ used)
    (more : List String) :
    (used ++ more).eraseDups.idxOf name = used.eraseDups.idxOf name := by
  rw [List.eraseDups_append, List.idxOf_append, if_pos (List.mem_eraseDups.mpr known)]

theorem idxOf_eraseDups_lt {used : List String} {name : String} (known : name ∈ used) :
    used.eraseDups.idxOf name < used.eraseDups.length :=
  List.idxOf_lt_length_of_mem (List.mem_eraseDups.mpr known)

theorem idxOf_eraseDups_inj {used : List String} {left right : String} (known : left ∈ used)
    (same : used.eraseDups.idxOf left = used.eraseDups.idxOf right) : left = right := by
  have found := List.getElem_idxOf (idxOf_eraseDups_lt known)
  simp only [same] at found
  rw [← found, List.getElem_idxOf]

theorem idxOf_eraseDups_concat_lt_iff {used : List String} {limit : Nat}
    (bounded : used.eraseDups.length ≤ limit) (name : String) :
    (used ++ [name]).eraseDups.idxOf name < limit ↔
      (used ++ [name]).eraseDups.length ≤ limit := by
  rw [eraseDups_concat]
  by_cases known : name ∈ used
  · have := idxOf_eraseDups_lt known
    rw [if_pos known]
    omega
  · rw [if_neg known, List.idxOf_append, if_neg fun mem => known (List.mem_eraseDups.mp mem)]
    simp only [List.idxOf_cons_self, Nat.zero_add, List.length_append, List.length_cons,
      List.length_nil]
    omega

theorem length_eraseDups_append_le (used more : List String) :
    (used ++ more).eraseDups.length ≤ used.eraseDups.length + more.length := by
  induction more generalizing used with
  | nil => rw [List.append_nil]; exact Nat.le_add_right _ _
  | cons name more ih =>
    have rest := ih (used ++ [name])
    have one : (used ++ [name]).eraseDups.length ≤ used.eraseDups.length + 1 := by
      rw [eraseDups_concat]
      by_cases known : name ∈ used
      · rw [if_pos known]
        exact Nat.le_add_right _ _
      · rw [if_neg known, List.length_append]
        exact Nat.le_refl _
    rw [List.append_cons, List.length_cons]
    omega

theorem nodup_eraseDups_append {α : Type} [DecidableEq α] {used : List α}
    (nodup : used.eraseDups.Nodup) (more : List α) : (used ++ more).eraseDups.Nodup := by
  induction more generalizing used with
  | nil => rwa [List.append_nil]
  | cons name more ih =>
    rw [List.append_cons]
    apply ih
    rw [eraseDups_concat]
    by_cases known : name ∈ used
    · rwa [if_pos known]
    · rw [if_neg known]
      refine List.nodup_append.mpr ⟨nodup, List.pairwise_singleton _ name,
        fun other mem _ last same => ?_⟩
      rw [same, List.mem_singleton.mp last] at mem
      exact known (List.mem_eraseDups.mp mem)

theorem nodup_eraseDups {α : Type} [DecidableEq α] (used : List α) : used.eraseDups.Nodup := by
  have empty : ([] : List α).eraseDups.Nodup := .nil
  exact nodup_eraseDups_append empty used

theorem idxOf_eraseDups_lt_iff {front : List String} {name : String} (fresh : name ∉ front)
    (back : List String) (other : String) :
    (front ++ name :: back).eraseDups.idxOf other < (front ++ name :: back).eraseDups.idxOf name ↔
      other ∈ front := by
  have absent : front.contains name = false := by simpa using fresh
  have freshOnce : name ∉ front.eraseDups := mt List.mem_eraseDups.mp fresh
  rw [List.eraseDups_append, List.cons_removeAll, if_pos absent, List.eraseDups_cons,
    List.idxOf_append, List.idxOf_append, if_neg freshOnce, List.idxOf_cons_self, Nat.zero_add]
  by_cases known : other ∈ front.eraseDups
  · rw [if_pos known]
    exact iff_of_true (List.idxOf_lt_length_of_mem known) (List.mem_eraseDups.mp known)
  · rw [if_neg known]
    exact iff_of_false (Nat.not_lt.mpr (Nat.le_add_left _ _)) (mt List.mem_eraseDups.mpr known)

structure Numbers (names : Interning) (used : List String) : Prop where
  size : names.size = used.eraseDups.length
  number : ∀ name, names.number? name =
    if name ∈ used then some (used.eraseDups.idxOf name) else none

theorem numbers_empty : ({} : Interning).Numbers [] where
  size := rfl
  number name := by
    rw [if_neg List.not_mem_nil]
    exact Std.TreeMap.getElem?_emptyc

theorem Numbers.intern {names : Interning} {used : List String} (numbers : names.Numbers used)
    (name : String) :
    (names.intern name).1 = (used ++ [name]).eraseDups.idxOf name ∧
      (names.intern name).2.Numbers (used ++ [name]) := by
  unfold Interning.intern
  rw [numbers.number]
  by_cases known : name ∈ used
  · rw [if_pos known]
    refine ⟨(idxOf_eraseDups_append known [name]).symm, ?_, fun other => ?_⟩
    · rw [eraseDups_concat, if_pos known]
      exact numbers.size
    · rw [numbers.number, eraseDups_concat, if_pos known]
      by_cases same : other = name
      · simp [same, known]
      · simp [same]
  · have fresh : (used ++ [name]).eraseDups.idxOf name = names.size := by
      rw [eraseDups_concat, if_neg known, List.idxOf_append,
        if_neg fun mem => known (List.mem_eraseDups.mp mem), numbers.size]
      simp
    have unknown : names.numbers[name]? = none := by
      have := numbers.number name
      rwa [if_neg known] at this
    rw [if_neg known]
    refine ⟨fresh.symm, ?_, fun other => ?_⟩
    · have absent : names.numbers.contains name = false := by
        rw [Std.TreeMap.contains_eq_isSome_getElem?, unknown]
        rfl
      change (names.numbers.insert name names.size).size = _
      rw [Std.TreeMap.size_insert, absent, eraseDups_concat, if_neg known, List.length_append,
        ← numbers.size]
      rfl
    · change (names.numbers.insert name names.size)[other]? = _
      rw [Std.TreeMap.getElem?_insert]
      by_cases same : name = other
      · rw [← same, if_pos Std.ReflCmp.compare_self, if_pos (by simp), fresh]
      · rw [if_neg fun equal => same (Std.LawfulEqCmp.eq_of_compare equal)]
        have kept := numbers.number other
        change names.numbers[other]? = _ at kept
        rw [kept]
        by_cases old : other ∈ used
        · rw [if_pos old, if_pos (by simp [old]), idxOf_eraseDups_append old]
        · rw [if_neg old, if_neg (by simp [old, Ne.symm same])]

end OptimizedLookup.Interning
