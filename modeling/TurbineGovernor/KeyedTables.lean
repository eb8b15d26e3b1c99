import Mathlib

/-!
# Tables as lists of pairs

A table with unique keys is a list of pairs, read with `List.lookup`. An
insertion keeps a key that is present; an entry is overwritten through its
position.
-/

namespace KeyedTables

variable {K V : Type}

/-- Every key occurs once. -/
def UniqueKeys (m : List (K × V)) : Prop := (m.map Prod.fst).Nodup

theorem mem_keys {m : List (K × V)} {i : Nat} {k : K} {v : V} (hi : m[i]? = some (k, v)) :
    k ∈ m.map Prod.fst :=
  List.mem_map_of_mem (f := Prod.fst) (List.mem_of_getElem? hi)

theorem keys_set {m : List (K × V)} {i : Nat} {k : K} {v : V} (hi : m[i]? = some (k, v))
    (v' : V) : (m.set i (k, v')).map Prod.fst = m.map Prod.fst := by
  obtain ⟨hlt, hget⟩ := List.getElem?_eq_some_iff.mp hi
  have hlt' : i < (m.map Prod.fst).length := by simpa using hlt
  rw [List.map_set]
  have hkey : (m.map Prod.fst).set i (m.map Prod.fst)[i] = m.map Prod.fst :=
    List.set_getElem_self hlt'
  rwa [List.getElem_map, hget] at hkey

theorem uniqueKeys_set {m : List (K × V)} (h : UniqueKeys m) {i : Nat} {k : K} {v : V}
    (hi : m[i]? = some (k, v)) (v' : V) : UniqueKeys (m.set i (k, v')) := by
  rw [UniqueKeys, keys_set hi]
  exact h

theorem modify_eq_set {A : Type} {m : List A} {i : Nat} {e : A} (hi : m[i]? = some e)
    (f : A → A) : m.modify i f = m.set i (f e) := by
  rw [List.modify_eq_set_getElem?, hi]
  rfl

theorem keys_modify (m : List (K × V)) (i : Nat) (f : V → V) :
    (m.modify i (fun e => (e.1, f e.2))).map Prod.fst = m.map Prod.fst := by
  cases hi : m[i]? with
  | none =>
    rw [List.modify_eq_set_getElem?, hi]
    rfl
  | some e => rw [modify_eq_set hi, keys_set hi]

theorem uniqueKeys_modify {m : List (K × V)} (h : UniqueKeys m) (i : Nat) (f : V → V) :
    UniqueKeys (m.modify i (fun e => (e.1, f e.2))) := by
  rw [UniqueKeys, keys_modify]
  exact h

section Lookup
variable [DecidableEq K]

theorem lookup_isSome_iff (m : List (K × V)) (k : K) :
    (m.lookup k).isSome ↔ k ∈ m.map Prod.fst := by
  rw [List.lookup_isSome_iff, List.mem_map]
  constructor
  · rintro ⟨e, hmem, hkey⟩
    exact ⟨e, hmem, (beq_iff_eq.mp hkey).symm⟩
  · rintro ⟨e, hmem, rfl⟩
    exact ⟨e, hmem, beq_self_eq_true e.1⟩

/-- `insert` into an `unordered_map`: a present key keeps its value. -/
def insertKey (m : List (K × V)) (k : K) (v : V) : List (K × V) :=
  if (m.lookup k).isSome then m else m ++ [(k, v)]

theorem lookup_insertKey (m : List (K × V)) (k k' : K) (v : V) :
    (insertKey m k v).lookup k' =
      if k' = k then some ((m.lookup k).getD v) else m.lookup k' := by
  simp only [insertKey]
  by_cases hkey : k' = k
  · subst hkey
    cases hm : m.lookup k' with
    | none => simp [List.lookup_append, hm]
    | some w => simp [hm]
  · rw [if_neg hkey]
    have hne : (k' == k) = false := by simpa using hkey
    split
    · rfl
    · rw [List.lookup_append]
      simp [List.lookup_cons, hne]

theorem lookup_insertAll (l m : List (K × V)) (k : K) :
    (l.foldl (fun m it => insertKey m it.1 it.2) m).lookup k = (m.lookup k).or (l.lookup k) := by
  induction l generalizing m with
  | nil => simp
  | cons it l ih =>
    rw [List.foldl_cons, ih, lookup_insertKey, List.lookup_cons]
    by_cases hkey : k = it.1
    · subst hkey
      cases m.lookup it.1 <;> simp
    · have hne : (k == it.1) = false := by simpa using hkey
      rw [if_neg hkey, hne]

theorem uniqueKeys_insertKey {m : List (K × V)} (h : UniqueKeys m) (k : K) (v : V) :
    UniqueKeys (insertKey m k v) := by
  simp only [insertKey]
  split
  · exact h
  · rename_i hnone
    rw [UniqueKeys, List.map_append, List.map_singleton]
    refine List.Nodup.append h (List.nodup_singleton k) ?_
    intro k' hk' hk
    obtain rfl := List.mem_singleton.mp hk
    exact hnone ((lookup_isSome_iff m k').mpr hk')

/-- `erase` of an `unordered_map`. -/
def eraseKey (m : List (K × V)) (k : K) : List (K × V) := m.filter (fun e => decide (e.1 ≠ k))

/-- `operator[]` with an assignment. -/
def assignKey (m : List (K × V)) (k : K) (v : V) : List (K × V) := (k, v) :: eraseKey m k

theorem lookup_eraseKey (m : List (K × V)) (k k' : K) :
    (eraseKey m k).lookup k' = if k' = k then none else m.lookup k' := by
  induction m with
  | nil => simp [eraseKey]
  | cons e m ih =>
    simp only [eraseKey] at ih ⊢
    rw [List.filter_cons, List.lookup_cons]
    by_cases he : e.1 = k
    · rw [if_neg (by simpa using he), ih]
      by_cases hk : k' = k
      · rw [if_pos hk, if_pos hk]
      · have hne : (k' == e.1) = false := by
          rw [beq_eq_false_iff_ne, he]
          exact hk
        rw [if_neg hk, if_neg hk, hne]
    · rw [if_pos (by simpa using he), List.lookup_cons, ih]
      by_cases hk : k' = k
      · have hne : (k' == e.1) = false := by
          rw [beq_eq_false_iff_ne, hk]
          exact fun h => he h.symm
        simp only [hne, if_pos hk]
      · simp only [if_neg hk]

theorem lookup_assignKey (m : List (K × V)) (k k' : K) (v : V) :
    (assignKey m k v).lookup k' = if k' = k then some v else m.lookup k' := by
  simp only [assignKey]
  rw [List.lookup_cons, lookup_eraseKey]
  by_cases hk : k' = k
  · subst hk
    simp
  · have hne : (k' == k) = false := by simpa using hk
    rw [hne]
    simp only [if_neg hk]

theorem eq_nil_iff_lookup (m : List (K × V)) : m = [] ↔ ∀ k, m.lookup k = none := by
  constructor
  · rintro rfl k
    rfl
  · intro h
    cases m with
    | nil => rfl
    | cons it m =>
      have hhead := h it.1
      rw [List.lookup_cons_self] at hhead
      cases hhead

theorem lookup_of_getElem {m : List (K × V)} (h : UniqueKeys m) {i : Nat} {k : K} {v : V}
    (hi : m[i]? = some (k, v)) : m.lookup k = some v := by
  induction m generalizing i with
  | nil => cases hi
  | cons e m ih =>
    obtain ⟨k', v'⟩ := e
    obtain ⟨hnot, hrest⟩ := List.nodup_cons.mp h
    cases i with
    | zero =>
      obtain ⟨rfl, rfl⟩ := Prod.mk.inj (Option.some.inj hi)
      simp
    | succ i =>
      rw [List.getElem?_cons_succ] at hi
      have hne : (k == k') = false := by
        rw [beq_eq_false_iff_ne]
        rintro rfl
        exact hnot (mem_keys hi)
      rw [List.lookup_cons, hne]
      exact ih hrest hi

theorem mem_of_lookup {m : List (K × V)} {k : K} {v : V} (h : m.lookup k = some v) :
    (k, v) ∈ m := by
  obtain ⟨l₁, l₂, rfl, _⟩ := List.lookup_eq_some_iff.mp h
  simp

theorem mem_iff_lookup {m : List (K × V)} (h : UniqueKeys m) (k : K) (v : V) :
    (k, v) ∈ m ↔ m.lookup k = some v := by
  constructor
  · intro hmem
    obtain ⟨i, hi⟩ := List.mem_iff_getElem?.mp hmem
    exact lookup_of_getElem h hi
  · exact mem_of_lookup

theorem lookup_eq_none_of_notMem {m : List (K × V)} {k : K} (h : k ∉ m.map Prod.fst) :
    m.lookup k = none := by
  rw [← Option.not_isSome_iff_eq_none, lookup_isSome_iff]
  exact h

/-- Overwriting an entry changes the value of its key only. -/
theorem lookup_set {m : List (K × V)} (h : UniqueKeys m) {i : Nat} {k : K} {v : V}
    (hi : m[i]? = some (k, v)) (v' : V) (k' : K) :
    (m.set i (k, v')).lookup k' = if k' = k then some v' else m.lookup k' := by
  induction m generalizing i with
  | nil => cases hi
  | cons e m ih =>
    obtain ⟨k₀, v₀⟩ := e
    obtain ⟨hnot, hrest⟩ := List.nodup_cons.mp h
    cases i with
    | zero =>
      obtain ⟨rfl, rfl⟩ := Prod.mk.inj (Option.some.inj hi)
      rw [List.set_cons_zero, List.lookup_cons, List.lookup_cons]
      by_cases hk : k' = k₀
      · simp [hk]
      · have hne : (k' == k₀) = false := by simpa using hk
        simp only [hne, if_neg hk]
    | succ i =>
      rw [List.getElem?_cons_succ] at hi
      rw [List.set_cons_succ, List.lookup_cons, List.lookup_cons, ih hrest hi]
      by_cases hk : k' = k₀
      · have hne : k₀ ≠ k := by
          rintro rfl
          exact hnot (mem_keys hi)
        simp [hk, hne]
      · have hne : (k' == k₀) = false := by simpa using hk
        simp only [hne]

/-- So does changing an entry in its place. -/
theorem lookup_modify {m : List (K × V)} (h : UniqueKeys m) {i : Nat} {k : K} {v : V}
    (hi : m[i]? = some (k, v)) (f : V → V) (k' : K) :
    (m.modify i (fun e => (e.1, f e.2))).lookup k' =
      if k' = k then some (f v) else m.lookup k' := by
  rw [modify_eq_set hi]
  exact lookup_set h hi (f v) k'

theorem lookup_modify_set {m : List (K × V)} (h : UniqueKeys m) {i : Nat} {k : K} {v : V}
    (hi : m[i]? = some (k, v)) (v' : V) (f : V → V) {k' : K} (hk : k' ≠ k) :
    ((m.set i (k, v')).modify i (fun e => (e.1, f e.2))).lookup k' = m.lookup k' := by
  have hset : (m.set i (k, v'))[i]? = some (k, v') :=
    List.getElem?_set_self (List.getElem?_eq_some_iff.mp hi).1
  rw [lookup_modify (uniqueKeys_set h hi v') hset, if_neg hk, lookup_set h hi, if_neg hk]

theorem lookup_modify_isSome (m : List (K × V)) (i : Nat) (f : V → V) (k : K) :
    ((m.modify i (fun e => (e.1, f e.2))).lookup k).isSome = (m.lookup k).isSome := by
  rw [Bool.eq_iff_iff, lookup_isSome_iff, lookup_isSome_iff, keys_modify]

theorem insertKey_new {m : List (K × V)} {k : K} (h : k ∉ m.map Prod.fst) (v : V) :
    insertKey m k v = m ++ [(k, v)] := by
  rw [insertKey, if_neg]
  rw [lookup_isSome_iff]
  exact h

theorem insertKey_present {m : List (K × V)} {k : K} (h : k ∈ m.map Prod.fst) (v : V) :
    insertKey m k v = m := by
  rw [insertKey, if_pos ((lookup_isSome_iff m k).mpr h)]

theorem length_insertAll_le (l m : List (K × V)) :
    (l.foldl (fun m it => insertKey m it.1 it.2) m).length ≤ m.length + l.length := by
  induction l generalizing m with
  | nil => exact le_rfl
  | cons it l ih =>
    have hrest := ih (insertKey m it.1 it.2)
    rw [List.foldl_cons, List.length_cons]
    by_cases hkey : it.1 ∈ m.map Prod.fst
    · rw [insertKey_present hkey] at hrest ⊢
      omega
    · rw [insertKey_new hkey] at hrest ⊢
      rw [List.length_append, List.length_singleton] at hrest
      omega

/-- Nothing is dropped exactly when the keys are distinct and new. -/
theorem length_insertAll_iff (l m : List (K × V)) :
    (l.foldl (fun m it => insertKey m it.1 it.2) m).length = m.length + l.length ↔
      (l.map Prod.fst).Nodup ∧ ∀ it ∈ l, it.1 ∉ m.map Prod.fst := by
  induction l generalizing m with
  | nil => exact iff_of_true rfl ⟨List.nodup_nil, fun _ hit => by cases hit⟩
  | cons it l ih =>
    rw [List.foldl_cons, List.length_cons, List.map_cons, List.nodup_cons, List.forall_mem_cons]
    by_cases hkey : it.1 ∈ m.map Prod.fst
    · have hle := length_insertAll_le l m
      rw [insertKey_present hkey]
      refine iff_of_false (by omega) ?_
      rintro ⟨_, hnew, _⟩
      exact hnew hkey
    · have hrest := ih (m ++ [(it.1, it.2)])
      rw [List.length_append, List.length_singleton] at hrest
      rw [insertKey_new hkey, ← Nat.add_assoc, Nat.add_right_comm, hrest, List.map_append,
        List.map_singleton]
      constructor
      · rintro ⟨hnodup, hnew⟩
        refine ⟨⟨?_, hnodup⟩, hkey, ?_⟩
        · intro hin
          obtain ⟨it', hmem, he⟩ := List.mem_map.mp hin
          exact hnew it' hmem (List.mem_append_right _ (List.mem_singleton.mpr he))
        · intro it' hmem hin
          exact hnew it' hmem (List.mem_append_left _ hin)
      · rintro ⟨⟨hfirst, hnodup⟩, _, hnew⟩
        refine ⟨hnodup, ?_⟩
        intro it' hmem hin
        rcases List.mem_append.mp hin with hin | hin
        · exact hnew it' hmem hin
        · exact hfirst (List.mem_map.mpr ⟨it', hmem, List.mem_singleton.mp hin⟩)

theorem insertAll_new {l m : List (K × V)}
    (h : (l.map Prod.fst).Nodup ∧ ∀ it ∈ l, it.1 ∉ m.map Prod.fst) :
    l.foldl (fun m it => insertKey m it.1 it.2) m = m ++ l := by
  induction l generalizing m with
  | nil => exact (List.append_nil m).symm
  | cons it l ih =>
    obtain ⟨hnodup, hnew⟩ := h
    rw [List.map_cons, List.nodup_cons] at hnodup
    rw [List.forall_mem_cons] at hnew
    rw [List.foldl_cons, insertKey_new hnew.1, ih, List.append_assoc, List.singleton_append]
    refine ⟨hnodup.2, ?_⟩
    intro it' hmem hin
    rw [List.map_append, List.map_singleton] at hin
    rcases List.mem_append.mp hin with hin | hin
    · exact hnew.2 it' hmem hin
    · exact hnodup.1 (List.mem_map.mpr ⟨it', hmem, List.mem_singleton.mp hin⟩)

/-- Inserted into an empty table, distinct keys are found with their values. -/
theorem lookup_insertAll_nil {A : Type} {as : List A} {key : A → K} (val : A → V)
    (distinct : (as.map key).Nodup) (k : K) (v : V) :
    ((as.map (fun a => (key a, val a))).foldl (fun m it => insertKey m it.1 it.2) []).lookup k =
        some v ↔
      ∃ a ∈ as, key a = k ∧ v = val a := by
  have hkeys : (as.map (fun a => (key a, val a))).map Prod.fst = as.map key := by
    rw [List.map_map]
    rfl
  have hunique : UniqueKeys (as.map (fun a => (key a, val a))) := by
    rw [UniqueKeys, hkeys]
    exact distinct
  rw [insertAll_new ⟨hunique, fun _ _ hin => by cases hin⟩, List.nil_append,
    ← mem_iff_lookup hunique, List.mem_map]
  constructor
  · rintro ⟨a, ha, he⟩
    obtain ⟨rfl, rfl⟩ := Prod.mk.inj he
    exact ⟨a, ha, rfl, rfl⟩
  · rintro ⟨a, ha, rfl, rfl⟩
    exact ⟨a, ha, rfl⟩

end Lookup

end KeyedTables
