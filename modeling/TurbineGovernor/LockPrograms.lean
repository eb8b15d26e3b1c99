import TurbineGovernor.TransitionRuns

/-!
# Threads that lock mutexes

A call of a thread is the list of its lock operations; what it does in between
is left out. Mutexes are not recursive and are released in the reverse order.
A discipline says which mutex may be taken while which others are held. What is
checked once for each call holds of every interleaving of calls.
-/

namespace LockPrograms
open TransitionRuns

variable {M T C : Type}

inductive Op (M : Type) where
  | acquire (m : M)
  | release (m : M)
  deriving DecidableEq

/-- Whose calls there are and what they lock. -/
structure Program (M T C : Type) where
  thread : C → T
  path : C → List (Op M)

structure Config (M T : Type) where
  owner : M → Option T
  todo : T → List (Op M)

inductive Label (T C : Type) where
  | call (call : C)
  | act (t : T)

namespace Config
variable [DecidableEq M] [DecidableEq T]

/-- All mutexes free and no call in progress. -/
def idle : Config M T := ⟨fun _ => none, fun _ => []⟩

/-- The next operation of a thread. A mutex that is not free blocks it. -/
def act (c : Config M T) (t : T) : Config M T :=
  match c.todo t with
  | [] => c
  | .acquire m :: ops =>
    if c.owner m = none then
      ⟨Function.update c.owner m (some t), Function.update c.todo t ops⟩
    else c
  | .release m :: ops => ⟨Function.update c.owner m none, Function.update c.todo t ops⟩

/-- A thread that has nothing left to do may begin any of its calls. -/
def step (prog : Program M T C) (c : Config M T) : Label T C → Config M T
  | .call call =>
    if c.todo (prog.thread call) = [] then
      { c with todo := Function.update c.todo (prog.thread call) (prog.path call) }
    else c
  | .act t => c.act t

/-- Thread `t` waits for `m`, which `t'` holds. -/
def WaitsFor (c : Config M T) (t t' : T) (m : M) : Prop :=
  (∃ ops, c.todo t = .acquire m :: ops) ∧ c.owner m = some t'

/-- Each of the two threads waits for a mutex that the other one holds. -/
def Deadlocked (c : Config M T) (t t' : T) : Prop :=
  ∃ m m', WaitsFor c t t' m ∧ WaitsFor c t' t m'

end Config

/-- The operations may be run by a thread that holds `held`, the latest mutex
first, and leave it with `held'`. -/
def Follows (allowed : List M → M → Prop) : List M → List (Op M) → List M → Prop
  | held, [], held' => held' = held
  | held, .acquire m :: ops, held' =>
    m ∉ held ∧ allowed held m ∧ Follows allowed (m :: held) ops held'
  | held, .release m :: ops, held' =>
    ∃ rest, held = m :: rest ∧ Follows allowed rest ops held'

/-- Each mutex has been taken in accordance with the discipline. -/
def Stacked (allowed : List M → M → Prop) : List M → Prop
  | [] => True
  | m :: held => m ∉ held ∧ allowed held m ∧ Stacked allowed held

theorem follows_append {allowed : List M → M → Prop} {ops ops' : List (Op M)}
    {held held' held'' : List M} (h : Follows allowed held ops held')
    (h' : Follows allowed held' ops' held'') : Follows allowed held (ops ++ ops') held'' := by
  induction ops generalizing held with
  | nil =>
    rw [Follows] at h
    rw [List.nil_append, ← h]
    exact h'
  | cons op ops ih =>
    cases op with
    | acquire m => exact ⟨h.1, h.2.1, ih h.2.2⟩
    | release m =>
      obtain ⟨rest, hheld, hrest⟩ := h
      exact ⟨rest, hheld, ih hrest⟩

/-- Blocks that leave the held mutexes as they are may be repeated. -/
theorem follows_flatMap {A : Type} {allowed : List M → M → Prop} {held : List M}
    {block : A → List (Op M)} (xs : List A) (h : ∀ x ∈ xs, Follows allowed held (block x) held) :
    Follows allowed held (xs.flatMap block) held := by
  induction xs with
  | nil => rfl
  | cons x xs ih =>
    rw [List.flatMap_cons]
    exact follows_append (h x List.mem_cons_self) (ih (fun y hy => h y (List.mem_cons_of_mem x hy)))

section Invariant
variable (prog : Program M T C) (allowed : T → List M → M → Prop)

/-- What a thread holds and has left to do. -/
structure ThreadOk (c : Config M T) (t : T) (held : List M) : Prop where
  stacked : Stacked (allowed t) held
  owner : ∀ m, c.owner m = some t ↔ m ∈ held
  follows : Follows (allowed t) held (c.todo t) []
  suffix : c.todo t = [] ∨ ∃ call, prog.thread call = t ∧ c.todo t <:+ prog.path call

def Disciplined (c : Config M T) : Prop := ∀ t, ∃ held, ThreadOk prog allowed c t held

variable {prog allowed} {c : Config M T}

theorem idle_disciplined : Disciplined prog allowed (Config.idle : Config M T) :=
  fun _ => ⟨[], trivial, fun _ => by simp [Config.idle], rfl, Or.inl rfl⟩

theorem suffix_tail {t : T} {op : Op M} {ops : List (Op M)} (hops : c.todo t = op :: ops)
    (h : c.todo t = [] ∨ ∃ call, prog.thread call = t ∧ c.todo t <:+ prog.path call) :
    ops = [] ∨ ∃ call, prog.thread call = t ∧ ops <:+ prog.path call := by
  rcases h with h | ⟨call, ht, hsuffix⟩
  · rw [h] at hops
    cases hops
  · rw [hops] at hsuffix
    exact Or.inr ⟨call, ht, (List.suffix_cons op ops).trans hsuffix⟩

/-- A thread only takes what its discipline allows. -/
theorem ThreadOk.next {t : T} {m : M} {held : List M} {ops : List (Op M)}
    (h : ThreadOk prog allowed c t held) (hops : c.todo t = .acquire m :: ops) :
    c.owner m ≠ some t ∧ allowed t held m ∧ Follows (allowed t) (m :: held) ops [] := by
  have hfollows := h.follows
  rw [hops] at hfollows
  exact ⟨fun hmine => hfollows.1 ((h.owner m).mp hmine), hfollows.2⟩

/-- A mutex that is released is the one taken last. -/
theorem ThreadOk.last {t : T} {m : M} {held : List M} {ops : List (Op M)}
    (h : ThreadOk prog allowed c t held) (hops : c.todo t = .release m :: ops) :
    ∃ rest, held = m :: rest := by
  have hfollows := h.follows
  rw [hops] at hfollows
  obtain ⟨rest, hheld, _⟩ := hfollows
  exact ⟨rest, hheld⟩

/-- A thread between two calls holds nothing. -/
theorem ThreadOk.idle {t : T} {held : List M} (h : ThreadOk prog allowed c t held)
    (hdone : c.todo t = []) (m : M) : c.owner m ≠ some t := by
  have hfollows := h.follows
  rw [hdone] at hfollows
  obtain rfl : held = [] := hfollows.symm
  exact fun hmine => List.not_mem_nil ((h.owner m).mp hmine)

section Steps
variable [DecidableEq M] [DecidableEq T]

/-- A thread is done or blocked, takes a free mutex or releases one. -/
theorem Config.act_cases (c : Config M T) (t : T) :
    c.act t = c ∨
    (∃ m ops, c.todo t = .acquire m :: ops ∧ c.owner m = none ∧
      c.act t = ⟨Function.update c.owner m (some t), Function.update c.todo t ops⟩) ∨
    ∃ m ops, c.todo t = .release m :: ops ∧
      c.act t = ⟨Function.update c.owner m none, Function.update c.todo t ops⟩ := by
  simp only [Config.act]
  split
  · exact Or.inl rfl
  · rename_i m ops hops
    split
    · rename_i hfree
      exact Or.inr (Or.inl ⟨m, ops, hops, hfree, rfl⟩)
    · exact Or.inl rfl
  · rename_i m ops hops
    exact Or.inr (Or.inr ⟨m, ops, hops, rfl⟩)

theorem act_disciplined (h : Disciplined prog allowed c) (t : T) :
    Disciplined prog allowed (c.act t) := by
  obtain ⟨held, hstacked, howner, hfollows, hsuffix⟩ := h t
  rcases c.act_cases t with heq | ⟨m, ops, hops, hfree, heq⟩ | ⟨m, ops, hops, heq⟩
  · rw [heq]
    exact h
  · rw [hops] at hfollows
    obtain ⟨hnot, hallowed, hrest⟩ := hfollows
    rw [heq]
    intro t'
    by_cases ht : t' = t
    · subst ht
      refine ⟨m :: held, ⟨hnot, hallowed, hstacked⟩, fun m' => ?_, ?_, ?_⟩
      · by_cases hm : m' = m
        · subst hm
          simp
        · simp only [Function.update_of_ne hm, howner, List.mem_cons, hm, false_or]
      · simpa using hrest
      · simpa using suffix_tail hops hsuffix
    · obtain ⟨held', hstacked', howner', hfollows', hsuffix'⟩ := h t'
      refine ⟨held', hstacked', fun m' => ?_, ?_, ?_⟩
      · rw [← howner']
        by_cases hm : m' = m
        · subst hm
          simp [hfree, Ne.symm ht]
        · simp only [Function.update_of_ne hm]
      · simpa only [Function.update_of_ne ht] using hfollows'
      · simpa only [Function.update_of_ne ht] using hsuffix'
  · rw [hops] at hfollows
    obtain ⟨rest, rfl, hrest⟩ := hfollows
    obtain ⟨hnot, _, hstacked⟩ := hstacked
    have hmine : c.owner m = some t := (howner m).mpr List.mem_cons_self
    rw [heq]
    intro t'
    by_cases ht : t' = t
    · subst ht
      refine ⟨rest, hstacked, fun m' => ?_, ?_, ?_⟩
      · by_cases hm : m' = m
        · subst hm
          simp [hnot]
        · simp only [Function.update_of_ne hm, howner, List.mem_cons, hm, false_or]
      · simpa using hrest
      · simpa using suffix_tail hops hsuffix
    · obtain ⟨held', hstacked', howner', hfollows', hsuffix'⟩ := h t'
      refine ⟨held', hstacked', fun m' => ?_, ?_, ?_⟩
      · rw [← howner']
        by_cases hm : m' = m
        · subst hm
          simp [hmine, Ne.symm ht]
        · simp only [Function.update_of_ne hm]
      · simpa only [Function.update_of_ne ht] using hfollows'
      · simpa only [Function.update_of_ne ht] using hsuffix'

/-- Every call obeys the discipline of its thread. -/
def Program.Obeys (prog : Program M T C) (allowed : T → List M → M → Prop) : Prop :=
  ∀ call, Follows (allowed (prog.thread call)) [] (prog.path call) []

theorem step_disciplined (hprog : prog.Obeys allowed) (c : Config M T) (l : Label T C)
    (h : Disciplined prog allowed c) : Disciplined prog allowed (c.step prog l) := by
  cases l with
  | act t => exact act_disciplined h t
  | call call =>
    simp only [Config.step]
    split
    · rename_i hdone
      intro t
      obtain ⟨held, hstacked, howner, hfollows, hsuffix⟩ := h t
      by_cases ht : t = prog.thread call
      · subst ht
        rw [hdone] at hfollows
        obtain rfl : held = [] := hfollows.symm
        refine ⟨[], hstacked, howner, ?_, Or.inr ⟨call, rfl, ?_⟩⟩
        · simpa using hprog call
        · simp
      · refine ⟨held, hstacked, howner, ?_, ?_⟩
        · simpa only [Function.update_of_ne ht] using hfollows
        · simpa only [Function.update_of_ne ht] using hsuffix
    · exact h

end Steps

end Invariant

end LockPrograms
