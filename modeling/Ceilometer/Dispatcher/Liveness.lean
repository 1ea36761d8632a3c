import Mathlib.Algebra.Order.BigOperators.Group.Finset
import Ceilometer.Dispatcher.ProjectId
import Ceilometer.Dispatcher.Reconcile

/-!
# Liveness of the dispatcher's locks

`project_id_resolved_once` and `reconcile_updates_once` say what the threads around
`_gnocchi_project_id_lock` and `_gnocchi_resource_lock` may do; this module says what they
will do. Every path through a locked block leaves it. In `gnocchi_project_id` that is the
`return` after `LOG.debug`, or the re-raise of what `tenants.find` raised. The `LOG.debug`
line reads the property again while the thread holds `threading.Lock`, which is not
reentrant; that read never reaches the lock, since the attribute was set just before it. In
the double-checked block of `_ensure_resource_and_metric` and `_process_resource` it is a
check that hits, a call that raises, or `cache.set`.

## Main results

- `readStep_progress`: a reader with the lock free or its own can always step; with
  `readStep_rank`, each such step takes a reader closer to the end of its read.
- `reads_complete`: from every state that some interleaving reaches, whatever keystone
  answers, the lock's holder, run alone, ends its read and frees the lock within seven steps
  of its own; after that, any reader run alone ends its read within seven steps, and leaves
  the lock free.
- `block_terminates`: every schedule of threads through the double-checked block, whatever
  the backend and memcache answer, has at most five steps per thread, and one that no thread
  can extend ends with every thread out of the block.

## Proof strategy

`Reading.rank` and `Phase.rank` count the steps a thread has left along the longest path.
For the readers, the step lemma is one case per place, its side conditions (the lock is free
at `waiting`, the attribute is set at `logging`) read off `Implements`, and the run lemma is
by induction on the fuel, in the shape of a bounded fixpoint iteration. For the block, every
step lowers the sum of the ranks, read off `guardStep_cases`.
-/

namespace Ceilometer.Dispatcher

/-- The most steps a thread at this place takes to end its read. -/
def Reading.rank : Reading → Nat
  | .idle => 0
  | .early | .raising _ | .leaving => 1
  | .logging => 2
  | .setting _ => 3
  | .calling => 4
  | .recheck => 5
  | .waiting => 6
  | .check => 7

theorem Reading.rank_le_seven (q : Reading) : q.rank ≤ 7 := by
  cases q <;> simp [Reading.rank]

namespace Readers.Implements

variable {σ : Type} {n : Nat} {s : Readers σ n} {m : Memo n} {i : Fin n}

/-- A thread out of the lock does not hold it. -/
theorem free_of_unlocked (impl : s.Implements m) (own : s.holder = none ∨ s.holder = some i)
    (unlocked : (s.phase i).locked = false) : s.holder = none :=
  own.resolve_right fun held => by simp [impl.locked_of_holder held] at unlocked

end Readers.Implements

namespace GnocchiDispatcher

variable {σ τ : Type} {n : Nat} (d : GnocchiDispatcher σ τ)

theorem ReadReachable.readAlone {start s : Readers σ n} (reach : d.ReadReachable start s) (i : Fin n) :
    ∀ fuel, d.ReadReachable start (d.readAlone i fuel s) := by
  intro fuel
  induction fuel generalizing s with
  | zero => exact reach
  | succ fuel ih =>
    simp only [GnocchiDispatcher.readAlone]
    split
    · exact reach
    · split
      · exact ih (reach.step i ‹_›)
      · exact reach

variable {s : Readers σ n} {m : Memo n} {i : Fin n}

/-- A thread with the lock free or its own is never stuck: the lock is free when it waits
for it, and the attribute is set when it logs. -/
theorem readStep_progress (impl : s.Implements m) (own : s.holder = none ∨ s.holder = some i) :
    (d.readStep s i).isSome := by
  unfold readStep
  cases hp : s.phase i <;> simp only [Option.isSome_some]
  case waiting => rw [if_pos (impl.free_of_unlocked own (by rw [hp]; rfl))]; rfl
  case calling => split <;> rfl
  case logging =>
    have set := impl.holderAt (i := i) (by rw [hp]; rfl)
    rw [hp] at set
    obtain ⟨pid, known⟩ := Option.isSome_iff_exists.mp set.1
    rw [known]
    rfl

/-- Each step of a thread in a read brings it closer to the end of the read, and keeps the
lock free or its own. -/
theorem readStep_rank {s' : Readers σ n} (step : d.readStep s i = some s') (busy : s.phase i ≠ .idle) :
    (s'.phase i).rank < (s.phase i).rank ∧
      (s.holder = none ∨ s.holder = some i → s'.holder = none ∨ s'.holder = some i) := by
  unfold readStep at step
  cases hp : s.phase i <;> simp only [hp] at step
  case idle => exact absurd hp busy
  case waiting | logging => split at step <;> cases step; exact ⟨by simp [Reading.rank], by simp⟩
  case calling => split at step <;> cases step <;> exact ⟨by simp [Reading.rank], by simp⟩
  all_goals cases step
  case check | recheck => exact ⟨by split <;> simp [Reading.rank], by split <;> simp⟩
  all_goals exact ⟨by simp [Reading.rank], by simp⟩

/-- A thread run alone, with the lock free or its own, ends its read within as many steps
as its rank, and leaves the lock free. -/
theorem readAlone_idle (i : Fin n) :
    ∀ fuel (s : Readers σ n), (∃ m, s.Implements m) → (s.holder = none ∨ s.holder = some i) →
      (s.phase i).rank ≤ fuel →
      (d.readAlone i fuel s).phase i = .idle ∧ (d.readAlone i fuel s).holder = none := by
  intro fuel
  induction fuel with
  | zero =>
    intro s ⟨m, impl⟩ own ranked
    have idle : s.phase i = .idle := by
      cases hp : s.phase i <;> simp [hp, Reading.rank] at ranked ⊢
    exact ⟨idle, impl.free_of_unlocked own (by rw [idle]; rfl)⟩
  | succ fuel ih =>
    intro s ⟨m, impl⟩ own ranked
    by_cases idle : s.phase i = .idle
    · simp only [GnocchiDispatcher.readAlone, if_pos idle]
      exact ⟨idle, impl.free_of_unlocked own (by rw [idle]; rfl)⟩
    · obtain ⟨s', step⟩ := Option.isSome_iff_exists.mp (d.readStep_progress impl own)
      have ⟨lower, keeps⟩ := d.readStep_rank step idle
      simp only [GnocchiDispatcher.readAlone, if_neg idle, step]
      exact ih s' (d.implements_readStep impl step) (keeps own) (by omega)

/-- No thread waits forever: from every state that some interleaving reaches, whatever
keystone answers, the lock's holder, run alone, ends its read and frees the lock within seven
steps; any thread, run alone after that, ends its read within seven steps, with the lock
free. -/
theorem reads_complete (remote : σ) {s : Readers σ n} (reach : d.ReadReachable (.start remote) s)
    (i : Fin n) :
    let freed := match s.holder with
      | some h => d.readAlone h 7 s
      | none => s
    let done := d.readAlone i 7 freed
    d.ReadReachable (.start remote) freed ∧ freed.holder = none ∧
      d.ReadReachable (.start remote) done ∧ done.phase i = .idle ∧ done.holder = none := by
  intro freed done
  have ends : ∀ {s : Readers σ n} (j : Fin n), d.ReadReachable (.start remote) s → (s.holder = none ∨ s.holder = some j) →
      (d.readAlone j 7 s).phase j = .idle ∧ (d.readAlone j 7 s).holder = none :=
    fun j reach own => d.readAlone_idle j 7 _ reach.implements own (Reading.rank_le_seven _)
  have freedReach : d.ReadReachable (.start remote) freed ∧ freed.holder = none := by
    cases held : s.holder with
    | none => simp only [freed, held]; exact ⟨reach, trivial⟩
    | some h => simp only [freed, held]; exact ⟨reach.readAlone d h 7, (ends h reach (.inr held)).2⟩
  exact ⟨freedReach.1, freedReach.2, freedReach.1.readAlone d i 7, ends i freedReach.1 (.inl freedReach.2)⟩

/-- Reader 0 holds the lock, with keystone about to refuse its call, and reader 1 waits for
it: reader 0's read raises and frees the lock, and reader 1's read then ends. -/
theorem reads_complete_flaky :
    ∃ s : Readers Nat 2, flakyKeystone.ReadReachable (.start 0) s ∧ s.holder = some 0 ∧
      s.phase 1 = .waiting ∧ (flakyKeystone.readAlone 0 7 s).holder = none ∧
      (flakyKeystone.readAlone 1 7 (flakyKeystone.readAlone 0 7 s)).phase 1 = .idle := by
  obtain ⟨s, reach, state⟩ := reach_of_readRun flakyKeystone (.start 0 : Readers Nat 2) [0, 0, 0, 1, 1]
    (p := fun s => decide (s.holder = some 0 ∧ s.phase 1 = .waiting)) (by decide)
  obtain ⟨held, waits⟩ := of_decide_eq_true state
  have done := reads_complete flakyKeystone 0 reach 1
  simp only [held] at done
  exact ⟨s, reach, held, waits, done.2.1, done.2.2.2.1⟩

end GnocchiDispatcher

/-! ### The double-checked block -/

/-- The most steps a thread at this phase takes to leave the block. -/
def Phase.rank : Phase → Nat
  | .check => 5
  | .waiting => 4
  | .recheck => 3
  | .calling => 2
  | .setting => 1
  | .done _ => 0

theorem Phase.rank_afterCall (r : Except PyExc Unit) : (Phase.afterCall r).rank ≤ 1 := by
  cases r <;> simp [Phase.afterCall, Phase.rank]

/-- The steps the threads have left in the block, at most. -/
def Threads.pending {σ τ : Type} {n : Nat} (s : Threads σ τ n) : Nat := ∑ i, (s.phase i).rank

theorem Threads.pending_start {σ τ : Type} {n : Nat} (remote : σ) (cache : τ) :
    (Threads.start remote cache : Threads σ τ n).pending = 5 * n := by
  simp [Threads.pending, Threads.start, Phase.rank, mul_comm]

namespace GnocchiDispatcher

variable {σ τ : Type} {n : Nat} (d : GnocchiDispatcher σ τ) (c : CacheClient τ) (gs : Fin n → Guard)

/-- Each step lowers the stepping thread's rank and moves no other thread. -/
theorem guardStep_moves {s s' : Threads σ τ n} {i : Fin n} (h : d.guardStep c gs s i = some s') :
    (s'.phase i).rank < (s.phase i).rank ∧ ∀ j ≠ i, s'.phase j = s.phase j := by
  rcases d.guardStep_cases c gs h with ⟨hp, rfl⟩ | ⟨hp, -, rfl⟩ | ⟨hp, rfl⟩ | ⟨hp, rfl⟩ | ⟨hp, rfl⟩ <;>
    refine ⟨?_, fun j other => Function.update_noteq other _ _⟩ <;>
    simp only [Threads.moveTo_phase, Function.update_same, hp]
  · split <;> simp [Phase.rank]
  · simp [Phase.rank]
  · split <;> simp [Phase.rank]
  · exact Nat.lt_of_le_of_lt (Phase.rank_afterCall _) (by decide)
  · simp [Phase.rank]

theorem guardStep_pending {s s' : Threads σ τ n} {i : Fin n} (h : d.guardStep c gs s i = some s') :
    s'.pending < s.pending := by
  have moved := d.guardStep_moves c gs h
  refine Finset.sum_lt_sum (fun j _ => ?_) ⟨i, Finset.mem_univ _, moved.1⟩
  by_cases same : j = i
  · exact same ▸ moved.1.le
  · rw [moved.2 j same]

/-- The run lemma: a schedule is no longer than the steps the threads had left. -/
theorem guardRun_length : ∀ {s s' : Threads σ τ n} {sched : List (Fin n)},
    d.guardRun c gs s sched = some s' → sched.length + s'.pending ≤ s.pending
  | s, s', [], run => by cases run; simp
  | s, s', i :: rest, run => by
    simp only [guardRun] at run
    cases h : d.guardStep c gs s i with
    | none => simp [h] at run
    | some s₁ =>
      rw [h, Option.some_bind] at run
      have rest := guardRun_length run
      have lower := d.guardStep_pending c gs h
      simp only [List.length_cons]
      omega

/-- No schedule of the double-checked block runs for ever, and none gets stuck: from the
start, whatever the backend and memcache answer, every schedule the threads can run has at
most five steps per thread, and one that no thread can extend ends with every thread out of
the block. -/
theorem block_terminates (remote : σ) (cache : τ) {sched : List (Fin n)} {s : Threads σ τ n}
    (run : d.guardRun c gs (.start remote cache) sched = some s) :
    sched.length ≤ 5 * n ∧ ((∀ i, d.guardStep c gs s i = none) → ∀ i, (s.phase i).left = true) := by
  refine ⟨?_, fun stuck => ?_⟩
  · have bound := d.guardRun_length c gs run
    rw [Threads.pending_start] at bound
    omega
  · rcases d.guardStep_progress c gs s with done | ⟨i, s', step⟩
    · exact done
    · rw [stuck i] at step
      cases step

/-- Two threads of one process reconcile `r1` to two flavors that hash apart: after ten
steps, five per thread, both have left the block, the second having made its own call. -/
theorem block_terminates_one_process :
    let sched : List (Fin 2) := [0, 1, 0, 0, 0, 0, 1, 1, 1, 1]
    ∃ s, (cachingDispatcher flavorHash).guardRun listCache oneProcess (.start flavorStore []) sched = some s ∧
      sched.length ≤ 5 * 2 ∧
      ((∀ i, (cachingDispatcher flavorHash).guardStep listCache oneProcess s i = none) →
        ∀ i, (s.phase i).left = true) := by
  intro sched
  have ran : ((cachingDispatcher flavorHash).guardRun listCache oneProcess
      (.start flavorStore []) sched).isSome = true := by decide
  obtain ⟨s, run⟩ := Option.isSome_iff_exists.mp ran
  exact ⟨s, run, block_terminates _ _ _ _ _ run⟩

end GnocchiDispatcher

end Ceilometer.Dispatcher
