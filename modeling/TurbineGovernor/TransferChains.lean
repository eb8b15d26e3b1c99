import TurbineGovernor.Loops

/-!
# Chains of dependent transfers

A chain is a list of transfers that depend on each other: a pass over it makes
the missing ones in order and stops at the first that fails. A bounded loop of
passes keeps a log of its attempts; the question is whether what the loop
reports is what the log says. A counter that is compared after the loop tells a
chain completed by the last permitted pass and an exhausted loop apart only if
the transfers are made in the test of the loop.
-/

namespace TransferChains
open RetryLoops

universe u v w
variable {T : Type u} {S : Type v}

/-- What the evaluations of a retry loop attempt, in order. -/
def retryLog {E : Type w} (test : Nat → S → Bool × S) (body : Nat → S → S)
    (emit : Nat → S → List E) : Nat → Nat → S → List E
  | 0, _, _ => []
  | left + 1, n, s =>
    match test n s with
    | (true, s') => emit n s ++ retryLog test body emit left (n + 1) (body n s')
    | (false, _) => emit n s

/-- No transfer is attempted more often than permitted, and success is reported
exactly when every transfer that is needed has succeeded in some attempt. -/
structure Truthful [DecidableEq T] (needed : List T) (bound : Nat) (log : List (T × Bool))
    (success : Prop) : Prop where
  bounded : ∀ t, (log.map Prod.fst).count t ≤ bound
  honest : success ↔ ∀ t ∈ needed, (t, true) ∈ log

/-- Two loops in step have the same counter and the same log. -/
theorem retryLoop_related {E : Type w} {S' : Type v} {R : S → S' → Prop}
    {test : Nat → S → Bool × S} {test' : Nat → S' → Bool × S'} {body : Nat → S → S}
    {body' : Nat → S' → S'} {emit : Nat → S → List E} {emit' : Nat → S' → List E}
    (hEmit : ∀ n s t, R s t → emit n s = emit' n t)
    (hTest : ∀ n s t, R s t → (test n s).1 = (test' n t).1 ∧ R (test n s).2 (test' n t).2)
    (hBody : ∀ n s t, R s t → R (body n s) (body' n t)) (left n : Nat) {s : S} {t : S'}
    (initial : R s t) :
    (retryLoop test body left n s).1 = (retryLoop test' body' left n t).1 ∧
    R (retryLoop test body left n s).2 (retryLoop test' body' left n t).2 ∧
    retryLog test body emit left n s = retryLog test' body' emit' left n t := by
  induction left generalizing n s t with
  | zero => exact ⟨rfl, initial, rfl⟩
  | succ left ih =>
    obtain ⟨same, related⟩ := hTest n s t initial
    have emitted := hEmit n s t initial
    rcases hs : test n s with ⟨go, s'⟩
    rcases ht : test' n t with ⟨go', t'⟩
    rw [hs, ht] at same related
    obtain rfl : go = go' := same
    simp only [retryLoop, retryLog, hs, ht, emitted]
    cases go with
    | false => exact ⟨rfl, related, rfl⟩
    | true =>
      obtain ⟨hcount, hrel, hlog⟩ := ih (n + 1) (hBody n s' t' related)
      exact ⟨hcount, hrel, congrArg (emit' n t ++ ·) hlog⟩

/-- The attempts of one pass over the missing transfers. -/
def tried (ok : T → Bool) : List T → List (T × Bool)
  | [] => []
  | t :: ts => if ok t then (t, true) :: tried ok ts else [(t, false)]

theorem mem_tried_true {ok : T → Bool} {ts : List T} {t : T} :
    (t, true) ∈ tried ok ts ↔ t ∈ ts.takeWhile ok := by
  induction ts with
  | nil => simp [tried]
  | cons a ts ih =>
    cases ha : ok a with
    | true => simp [tried, ha, ih]
    | false => simp [tried, ha]

theorem tried_sublist (ok : T → Bool) (ts : List T) : ((tried ok ts).map Prod.fst).Sublist ts := by
  induction ts with
  | nil => exact List.Sublist.refl []
  | cons a ts ih =>
    cases ha : ok a with
    | true => simpa [tried, ha] using ih.cons_cons a
    | false => simp [tried, ha]

/-- The transfers that are missing after `passes` passes, of which the first has
number `n`. -/
def missing (ok : Nat → T → Bool) : Nat → Nat → List T → List T
  | 0, _, ts => ts
  | passes + 1, n, ts => missing ok passes (n + 1) (ts.dropWhile (ok n))

/-- The last permitted pass completes the chain. -/
def CompletedLast (ok : Nat → T → Bool) (bound : Nat) (chain : List T) : Prop :=
  missing ok bound 0 chain = [] ∧ missing ok (bound - 1) 0 chain ≠ []

def chainLoop (ok : Nat → T → Bool) : Nat → Nat → List T → Nat × List T :=
  retryLoop (fun _ ts => (!ts.isEmpty, ts)) (fun n ts => ts.dropWhile (ok n))

def chainLog (ok : Nat → T → Bool) : Nat → Nat → List T → List (T × Bool) :=
  retryLog (fun _ ts => (!ts.isEmpty, ts)) (fun n ts => ts.dropWhile (ok n))
    (fun n ts => tried (ok n) ts)

theorem missing_nil (ok : Nat → T → Bool) (passes n : Nat) : missing ok passes n [] = [] := by
  induction passes generalizing n with
  | zero => rfl
  | succ passes ih => exact ih (n + 1)

theorem missing_subset (ok : Nat → T → Bool) (passes n : Nat) (ts : List T) :
    missing ok passes n ts ⊆ ts := by
  induction passes generalizing n ts with
  | zero => exact List.Subset.refl ts
  | succ passes ih =>
    intro t ht
    exact List.dropWhile_subset (ok n) (ih (n + 1) _ ht)

theorem missing_succ (ok : Nat → T → Bool) (passes n : Nat) (ts : List T) :
    missing ok (passes + 1) n ts = (missing ok passes n ts).dropWhile (ok (n + passes)) := by
  induction passes generalizing n ts with
  | zero => rfl
  | succ passes ih =>
    have hnum : n + 1 + passes = n + (passes + 1) := by omega
    rw [missing, ih, hnum]
    rfl

/-- The loop is stopped by its test when a chain is complete before the last
permitted pass; what is missing is what the loop ends with. -/
theorem chainLoop_spec (ok : Nat → T → Bool) (left n : Nat) (ts : List T) :
    (chainLoop ok left n ts).2 = missing ok left n ts ∧
    ((chainLoop ok (left + 1) n ts).1 ≤ n + left + 1 ↔ missing ok left n ts = []) := by
  induction left generalizing n ts with
  | zero =>
    refine ⟨rfl, ?_⟩
    cases ts with
    | nil => simp [chainLoop, retryLoop, missing]
    | cons t ts => simp [chainLoop, retryLoop, missing]
  | succ left ih =>
    cases ts with
    | nil =>
      rw [missing_nil]
      exact ⟨rfl, by simp [chainLoop, retryLoop]⟩
    | cons t ts =>
      obtain ⟨hend, hcount⟩ := ih (n + 1) ((t :: ts).dropWhile (ok n))
      refine ⟨hend, ?_⟩
      rw [missing, ← hcount]
      have hnum : n + (left + 1) + 1 = n + 1 + left + 1 := by omega
      rw [hnum]
      exact Iff.rfl

/-- A loop stopped by its test has completed the chain. -/
theorem chainLoop_done {ok : Nat → T → Bool} {bound : Nat} {chain : List T}
    (positive : 0 < bound) (h : (chainLoop ok bound 0 chain).1 ≤ bound) :
    (chainLoop ok bound 0 chain).2 = [] := by
  obtain ⟨left, rfl⟩ : ∃ left, bound = left + 1 := ⟨bound - 1, by omega⟩
  have hcount := (chainLoop_spec ok left 0 chain).2
  rw [Nat.zero_add] at hcount
  rw [(chainLoop_spec ok (left + 1) 0 chain).1, missing_succ, hcount.mp h]
  rfl

/-- The log holds a success of each transfer that is no longer missing. -/
theorem mem_chainLog_true (ok : Nat → T → Bool) (left n : Nat) {ts : List T} (distinct : ts.Nodup)
    (t : T) : (t, true) ∈ chainLog ok left n ts ↔ t ∈ ts ∧ t ∉ missing ok left n ts := by
  induction left generalizing n ts with
  | zero => simp [chainLog, retryLog, missing]
  | succ left ih =>
    cases ts with
    | nil => simp [chainLog, retryLog, tried]
    | cons a ts =>
      have hdrop : ((a :: ts).dropWhile (ok n)).Nodup :=
        distinct.sublist (List.dropWhile_sublist (ok n))
      have hlog : chainLog ok (left + 1) n (a :: ts) =
          tried (ok n) (a :: ts) ++ chainLog ok left (n + 1) ((a :: ts).dropWhile (ok n)) := rfl
      have hdisjoint : ∀ b ∈ (a :: ts).takeWhile (ok n), b ∉ (a :: ts).dropWhile (ok n) := by
        intro b htake hmem
        have hnodup := distinct
        rw [← List.takeWhile_append_dropWhile (p := ok n) (l := a :: ts)] at hnodup
        exact (List.nodup_append.mp hnodup).2.2 b htake b hmem rfl
      have hsub : ∀ b, b ∈ missing ok left (n + 1) ((a :: ts).dropWhile (ok n)) →
          b ∈ (a :: ts).dropWhile (ok n) := by
        intro b hb
        exact missing_subset ok left (n + 1) _ hb
      have hsplit : t ∈ a :: ts ↔
          t ∈ (a :: ts).takeWhile (ok n) ∨ t ∈ (a :: ts).dropWhile (ok n) := by
        rw [← List.mem_append, List.takeWhile_append_dropWhile]
      rw [hlog, List.mem_append, mem_tried_true, ih (n + 1) hdrop, missing, hsplit]
      constructor
      · rintro (htake | ⟨hmem, hgone⟩)
        · exact ⟨Or.inl htake, fun hb => hdisjoint t htake (hsub t hb)⟩
        · exact ⟨Or.inr hmem, hgone⟩
      · rintro ⟨htake | hmem, hgone⟩
        · exact Or.inl htake
        · exact Or.inr ⟨hmem, hgone⟩

theorem count_chainLog [DecidableEq T] (ok : Nat → T → Bool) (left n : Nat) {ts : List T}
    (distinct : ts.Nodup) (t : T) : ((chainLog ok left n ts).map Prod.fst).count t ≤ left := by
  induction left generalizing n ts with
  | zero => simp [chainLog, retryLog]
  | succ left ih =>
    cases ts with
    | nil => simp [chainLog, retryLog, tried]
    | cons a ts =>
      have hlog : chainLog ok (left + 1) n (a :: ts) =
          tried (ok n) (a :: ts) ++ chainLog ok left (n + 1) ((a :: ts).dropWhile (ok n)) := rfl
      have hpass : ((tried (ok n) (a :: ts)).map Prod.fst).count t ≤ 1 := by
        refine le_trans ((tried_sublist (ok n) (a :: ts)).count_le t) ?_
        exact List.nodup_iff_count_le_one.mp distinct t
      have hrest := ih (n + 1) (distinct.sublist (List.dropWhile_sublist (ok n)))
      rw [hlog, List.map_append, List.count_append]
      omega

/-- A loop that makes the transfers in its body tells the truth exactly when the
last permitted pass does not complete the chain. -/
theorem chain_truthful_iff [DecidableEq T] (ok : Nat → T → Bool) {bound : Nat}
    (positive : 0 < bound) {chain : List T} (distinct : chain.Nodup) :
    Truthful chain bound (chainLog ok bound 0 chain) ((chainLoop ok bound 0 chain).1 ≤ bound) ↔
      ¬ CompletedLast ok bound chain := by
  obtain ⟨left, rfl⟩ : ∃ left, bound = left + 1 := ⟨bound - 1, by omega⟩
  have hcount := (chainLoop_spec ok left 0 chain).2
  rw [Nat.zero_add] at hcount
  have hall : (∀ t ∈ chain, (t, true) ∈ chainLog ok (left + 1) 0 chain) ↔
      missing ok (left + 1) 0 chain = [] := by
    rw [List.eq_nil_iff_forall_not_mem]
    constructor
    · intro h t ht
      have hmem := missing_subset ok (left + 1) 0 chain ht
      exact ((mem_chainLog_true ok _ 0 distinct t).mp (h t hmem)).2 ht
    · intro h t ht
      exact (mem_chainLog_true ok _ 0 distinct t).mpr ⟨ht, h t⟩
  have hearly : missing ok left 0 chain = [] → missing ok (left + 1) 0 chain = [] := by
    intro h
    rw [missing_succ, h]
    rfl
  constructor
  · rintro ⟨_, honest⟩ ⟨hdone, hlate⟩
    exact hlate (hcount.mp (honest.mpr (hall.mpr hdone)))
  · intro hnot
    refine ⟨count_chainLog ok _ 0 distinct, ?_⟩
    rw [hcount, hall]
    refine ⟨hearly, fun hdone => ?_⟩
    by_contra hlate
    exact hnot ⟨hdone, hlate⟩

section Tests
variable {A : Type v} (transfer : Nat → Option A)

def testLoop : Nat → Nat → Option A → Nat × Option A :=
  retryLoop (fun i _ => ((transfer i).isNone, transfer i)) (fun _ r => r)

/-- Each evaluation of the test is one attempt. -/
def testLog : Nat → Nat → Option A → List (Unit × Bool) :=
  retryLog (fun i _ => ((transfer i).isNone, transfer i)) (fun _ r => r)
    (fun i _ => [((), (transfer i).isSome)])

/-- The counter stays within the bound when an attempt succeeds, and the answer
of that attempt is what the loop ends with. -/
theorem testLoop_spec (left n : Nat) (r : Option A) :
    ((testLoop transfer left n r).1 ≤ n + left ↔ ((), true) ∈ testLog transfer left n r) ∧
    (((), true) ∈ testLog transfer left n r → (testLoop transfer left n r).2.isSome = true) := by
  induction left generalizing n r with
  | zero => simp [testLoop, testLog, retryLoop, retryLog]
  | succ left ih =>
    cases htransfer : transfer n with
    | some a => simp [testLoop, testLog, retryLoop, retryLog, htransfer]
    | none =>
      have hstep : testLoop transfer (left + 1) n r = testLoop transfer left (n + 1) none := by
        simp [testLoop, retryLoop, htransfer]
      have hlog : ((), true) ∈ testLog transfer (left + 1) n r ↔
          ((), true) ∈ testLog transfer left (n + 1) none := by
        simp [testLog, retryLog, htransfer]
      have hnum : n + (left + 1) = n + 1 + left := by omega
      rw [hstep, hlog, hnum]
      exact ih (n + 1) none

theorem length_testLog (left n : Nat) (r : Option A) :
    (testLog transfer left n r).length ≤ left := by
  induction left generalizing n r with
  | zero => simp [testLog, retryLog]
  | succ left ih =>
    cases htransfer : transfer n with
    | some a => simp [testLog, retryLog, htransfer]
    | none =>
      have hlog : testLog transfer (left + 1) n r =
          [((), false)] ++ testLog transfer left (n + 1) none := by
        simp [testLog, retryLog, htransfer]
      have hrest := ih (n + 1) none
      rw [hlog, List.length_append, List.length_singleton]
      omega

/-- A loop that makes its transfer in its test always tells the truth. -/
theorem test_truthful (bound : Nat) :
    Truthful [()] bound (testLog transfer bound 0 none)
      ((testLoop transfer bound 0 none).1 ≤ bound) := by
  have hcount := (testLoop_spec transfer bound 0 none).1
  rw [Nat.zero_add] at hcount
  constructor
  · intro t
    calc ((testLog transfer bound 0 none).map Prod.fst).count t
        ≤ ((testLog transfer bound 0 none).map Prod.fst).length := List.count_le_length
      _ = (testLog transfer bound 0 none).length := List.length_map Prod.fst
      _ ≤ bound := length_testLog transfer bound 0 none
  · rw [hcount]
    exact ⟨fun h _ _ => h, fun h => h () (by simp)⟩

end Tests

section Uncounted
variable (ok : Nat → Bool)

/-- `while (transfer fails && n++ < max)` from counter value `n`, with `left`
evaluations of the bound still to succeed: one attempt more than the bound. -/
def uncountedLoop : Nat → Nat → Nat
  | 0, n => if ok n then n else n + 1
  | left + 1, n => if ok n then n else uncountedLoop left (n + 1)

def uncountedLog : Nat → Nat → List (Unit × Bool)
  | 0, n => [((), ok n)]
  | left + 1, n => if ok n then [((), true)] else ((), false) :: uncountedLog left (n + 1)

theorem uncountedLoop_ge_iff (left n : Nat) :
    n + left ≤ uncountedLoop ok left n ↔ ∀ i < left, ok (n + i) = false := by
  induction left generalizing n with
  | zero =>
    simp only [uncountedLoop]
    split
    · simp
    · simp
  | succ left ih =>
    rw [Nat.forall_lt_succ_left, Nat.add_zero]
    simp only [uncountedLoop]
    cases h : ok n with
    | true =>
      simp only [if_true, Bool.true_eq_false, false_and, iff_false]
      omega
    | false =>
      have rest := ih (n + 1)
      simp only [Nat.add_right_comm n 1] at rest
      simp only [Bool.false_eq_true, if_false, true_and, ← Nat.add_assoc]
      exact rest

theorem mem_uncountedLog_true (left n : Nat) :
    ((), true) ∈ uncountedLog ok left n ↔ ∃ i < left + 1, ok (n + i) = true := by
  induction left generalizing n with
  | zero =>
    cases h : ok n with
    | true => simp [uncountedLog, h]
    | false => simp [uncountedLog, h]
  | succ left ih =>
    rw [Nat.exists_lt_succ_left, Nat.add_zero]
    simp only [uncountedLog]
    cases h : ok n with
    | true => simp
    | false =>
      have rest := ih (n + 1)
      simp only [Nat.add_right_comm n 1] at rest
      simp only [Bool.false_eq_true, if_false, false_or, ← Nat.add_assoc, ← rest]
      simp

/-- The log is longer than the bound when all permitted attempts fail. -/
theorem length_uncountedLog (left n : Nat) :
    (uncountedLog ok left n).length ≤ left + 1 ∧
    ((uncountedLog ok left n).length ≤ left ↔ ∃ i < left, ok (n + i) = true) := by
  induction left generalizing n with
  | zero => simp [uncountedLog]
  | succ left ih =>
    rw [Nat.exists_lt_succ_left, Nat.add_zero]
    simp only [uncountedLog]
    cases h : ok n with
    | true => simp
    | false =>
      have rest := ih (n + 1)
      simp only [Nat.add_right_comm n 1] at rest
      simp only [Bool.false_eq_true, if_false, List.length_cons, Nat.add_le_add_iff_right,
        false_or, ← Nat.add_assoc]
      exact rest

theorem count_unit (log : List (Unit × Bool)) (t : Unit) :
    (log.map Prod.fst).count t = log.length := by
  have hlen : (log.map Prod.fst).length = log.length := List.length_map Prod.fst
  rw [← hlen]
  exact List.count_eq_length.mpr (fun _ _ => rfl)

/-- Held to its bound, the loop is right exactly when a counted attempt succeeds;
otherwise it makes one attempt too many. -/
theorem uncounted_truthful_iff (bound : Nat) :
    Truthful [()] bound (uncountedLog ok bound 0) (uncountedLoop ok bound 0 < bound) ↔
      ∃ i < bound, ok i = true := by
  have hge := uncountedLoop_ge_iff ok bound 0
  have hlen := (length_uncountedLog ok bound 0).2
  have hmem := mem_uncountedLog_true ok bound 0
  simp only [Nat.zero_add] at hge hlen hmem
  constructor
  · rintro ⟨bounded, _⟩
    have := bounded ()
    rw [count_unit] at this
    exact hlen.mp this
  · rintro ⟨i, hi, hok⟩
    have hlt : uncountedLoop ok bound 0 < bound := by
      by_contra hnot
      have := hge.mp (not_lt.mp hnot) i hi
      rw [hok] at this
      cases this
    refine ⟨fun t => ?_, ?_⟩
    · rw [count_unit]
      exact hlen.mpr ⟨i, hi, hok⟩
    · exact ⟨fun _ _ _ => hmem.mpr ⟨i, Nat.lt_succ_of_lt hi, hok⟩, fun _ => hlt⟩

/-- Granted the attempt it makes beyond its bound, the loop is wrong exactly when
that attempt is the first to succeed. -/
theorem uncounted_truthful_succ_iff (bound : Nat) :
    Truthful [()] (bound + 1) (uncountedLog ok bound 0) (uncountedLoop ok bound 0 < bound) ↔
      ¬ ((∀ i < bound, ok i = false) ∧ ok bound = true) := by
  have hge := uncountedLoop_ge_iff ok bound 0
  have hlen := (length_uncountedLog ok bound 0).1
  have hmem := mem_uncountedLog_true ok bound 0
  simp only [Nat.zero_add] at hge hmem
  constructor
  · rintro ⟨_, honest⟩ ⟨hfail, hlast⟩
    have hall : ∀ t ∈ [()], (t, true) ∈ uncountedLog ok bound 0 :=
      fun _ _ => hmem.mpr ⟨bound, Nat.lt_succ_self _, hlast⟩
    exact absurd (honest.mpr hall) (not_lt.mpr (hge.mpr hfail))
  · intro hnot
    refine ⟨fun t => by rw [count_unit]; exact hlen, ?_, ?_⟩
    · intro hlt t _
      by_contra hnone
      refine absurd (hge.mpr ?_) (not_le.mpr hlt)
      intro i hi
      by_contra hi'
      exact hnone (hmem.mpr ⟨i, Nat.lt_succ_of_lt hi, by simpa using hi'⟩)
    · intro hall
      by_contra hge'
      have hfail := hge.mp (not_lt.mp hge')
      obtain ⟨i, hi, hok⟩ := hmem.mp (hall () (by simp))
      rcases Nat.lt_succ_iff_lt_or_eq.mp hi with hlt | rfl
      · rw [hfail i hlt] at hok
        cases hok
      · exact hnot ⟨hfail, hok⟩

end Uncounted

end TransferChains
