import Ceilometer.Dispatcher.Gnocchi

/-!
# Threads reading the Gnocchi project id

`gnocchiProjectId` runs the `gnocchi_project_id` property as one sequential statement. Here
each reader thread runs it as a sequence of atomic steps on what the threads share: the
attribute `_gnocchi_project_id`, the lock `_gnocchi_project_id_lock` and keystone.

1. `if self._gnocchi_project_id is not None:`, with no lock, and then
   `return self._gnocchi_project_id`, which reads the attribute again;
2. `with self._gnocchi_project_id_lock:`: wait until no thread holds it;
3. `if self._gnocchi_project_id is None:`, under the lock;
4. `self._ks_client.tenants.find(...)`: the call runs, and returns the project or raises;
5. after a raise, `LOG.exception` and `raise`: the thread leaves the `with`, which releases
   the lock, and its read raises;
6. `self._gnocchi_project_id = project.id`;
7. `LOG.debug(..., self.gnocchi_project_id)`: a read of the property inside the first one.
   `threading.Lock` is not reentrant, so this read returns through its unlocked check, or
   waits for ever;
8. `return self._gnocchi_project_id`, leaving the `with`.

A thread that returned or raised may read again. Keystone answers `tenants.find` as the
dispatcher's `tenantsFind` does, so a project it returns has an id (a `str`, never `None`).
Each call of `tenants.find`, its answer, and the outcome of each read are logged, in order.

## Main results

- `readAlone_gnocchiProjectId`: a thread reading alone does what `gnocchiProjectId` does.
- `project_id_resolved_once`: over every interleaving of any number of readers,
  `tenants.find` never runs in two threads at once and is not called after a call that
  returned; every read that returns gets the id that call returned; an exception that
  `tenants.find` raises is raised by the read that made the call; and the attribute stays
  `None` until a call returns.

## Proof strategy

`Memo` is what the log promises: the lookup as one object, whose events are accepted or
refused one at a time. Its laws hold of every log it accepts, by induction on the log. The
readers implement it (`Implements`): the memo knows the attribute, except while the thread
whose call returned is about to set it; its running call is the thread in `tenants.find`;
what it owes a thread is the exception that thread is raising. Each step keeps this, with
the new event accepted, and only the lock's holder is between its recheck and its return.
-/

namespace Ceilometer.Dispatcher

/-- Where a thread is in a read of `gnocchi_project_id`: not reading; at the unlocked
`if self._gnocchi_project_id is not None:`; at the unlocked `return` after it; at
`with self._gnocchi_project_id_lock`; and, holding the lock, at the second `if`, in
`tenants.find`, leaving the `with` with the exception `tenants.find` raised, setting the
id it returned, at `LOG.debug(..., self.gnocchi_project_id)`, and at the locked `return`. -/
inductive Reading where
  | idle
  | check
  | early
  | waiting
  | recheck
  | calling
  | raising (e : PyExc)
  | setting (pid : String)
  | logging
  | leaving
  deriving DecidableEq, Repr

/-- The places that hold the lock. -/
def Reading.locked : Reading → Bool
  | .recheck | .calling | .raising _ | .setting _ | .logging | .leaving => true
  | _ => false

/-- What the readers did: thread `i` calls `tenants.find`, which returns a project or
raises; a read by thread `i` returns or raises. -/
inductive ReadEvent (n : Nat) where
  | call (i : Fin n)
  | found (i : Fin n) (pid : String)
  | failed (i : Fin n) (e : PyExc)
  | returned (i : Fin n) (v : Option String)
  | raised (i : Fin n) (e : PyExc)
  deriving DecidableEq, Repr

/-- The event that ends a read with what `gnocchiProjectId` returned or raised. -/
def ReadEvent.ofOutcome {n : Nat} (i : Fin n) : Except PyExc String → ReadEvent n
  | .ok pid => .returned i (some pid)
  | .error e => .raised i e

/-! ### What the log promises -/

/-- The memoised lookup as one object: the id once a call returned, the thread whose call
is running, and the exception that each thread's read has yet to raise. -/
structure Memo (n : Nat) where
  known : Option String
  busy : Option (Fin n)
  owes : Fin n → Option PyExc

namespace Memo

variable {n : Nat}

/-- Nothing known, no call running, nothing owed. -/
def init : Memo n := ⟨none, none, fun _ => none⟩

/-- The events the memo accepts: a call only while no id is known, no call runs and the
caller owes nothing; an answer only to the running call, and a returned id only while none is
known; a read that returns the known id; a read that raises what its thread's call raised. -/
def step (m : Memo n) : ReadEvent n → Option (Memo n)
  | .call i =>
    if m.known = none ∧ m.busy = none ∧ m.owes i = none then some { m with busy := some i }
    else none
  | .found i pid =>
    if m.busy = some i ∧ m.known = none then some { m with known := some pid, busy := none }
    else none
  | .failed i e =>
    if m.busy = some i ∧ m.owes i = none then
      some { m with busy := none, owes := Function.update m.owes i (some e) }
    else none
  | .returned _ v => if v.isSome ∧ v = m.known then some m else none
  | .raised i e =>
    if m.owes i = some e then some { m with owes := Function.update m.owes i none } else none

/-- The events of a log, in order; `none` if one is refused. -/
def run : Memo n → List (ReadEvent n) → Option (Memo n)
  | m, [] => some m
  | m, e :: rest => (m.step e).bind (run · rest)

theorem run_append (m : Memo n) (l l' : List (ReadEvent n)) :
    m.run (l ++ l') = (m.run l).bind (run · l') := by
  induction l generalizing m with
  | nil => rfl
  | cons e l ih =>
    simp only [List.cons_append, run]
    cases m.step e <;> simp [ih]

theorem run_append_singleton (m : Memo n) (l : List (ReadEvent n)) (e : ReadEvent n) :
    m.run (l ++ [e]) = (m.run l).bind (·.step e) := by
  rw [run_append]
  cases m.run l <;> simp [run]

theorem run_cons {m m' : Memo n} {e : ReadEvent n} {l : List (ReadEvent n)}
    (h : m.run (e :: l) = some m') : ∃ m₁, m.step e = some m₁ ∧ m₁.run l = some m' := by
  simp only [run] at h
  cases step : m.step e with
  | none => rw [step] at h; cases h
  | some m₁ => rw [step, Option.some_bind] at h; exact ⟨m₁, rfl, h⟩

/-- A known id stays known. -/
theorem known_step {m m₁ : Memo n} {e : ReadEvent n} (h : m.step e = some m₁)
    (set : m.known.isSome) : m₁.known = m.known := by
  cases e with
  | found i pid =>
    simp only [step] at h
    split at h
    · rename_i guard; simp [guard.2] at set
    · cases h
  | _ => simp only [step] at h; split at h <;> cases h; rfl

theorem known_run {m m' : Memo n} {l : List (ReadEvent n)} (h : m.run l = some m')
    (set : m.known.isSome) : m'.known = m.known := by
  induction l generalizing m with
  | nil => cases h; rfl
  | cons e l ih =>
    obtain ⟨m₁, step₁, rest⟩ := run_cons h
    have same := known_step step₁ set
    rw [ih rest (by rw [same]; exact set), same]

/-- What an event does to what thread `j` is owed: only a failure of its call owes, and
only its raise pays. -/
theorem owes_step {m m₁ : Memo n} {e : ReadEvent n} (h : m.step e = some m₁) (j : Fin n) :
    m₁.owes j = m.owes j ∨ (∃ e', e = .failed j e' ∧ m₁.owes j = some e') ∨
      ∃ e', e = .raised j e' ∧ m.owes j = some e' ∧ m₁.owes j = none := by
  cases e with
  | failed i e' =>
    simp only [step] at h
    split at h
    · cases h
      by_cases same : j = i
      · subst same; exact .inr (.inl ⟨e', rfl, by simp⟩)
      · exact .inl (by simp [same])
    · cases h
  | raised i e' =>
    simp only [step] at h
    split at h
    · cases h
      by_cases same : j = i
      · subst same; exact .inr (.inr ⟨e', rfl, ‹_›, by simp⟩)
      · exact .inl (by simp [same])
    · cases h
  | _ => simp only [step] at h; split at h <;> cases h; exact .inl rfl

/-- After an id is known, nothing calls `tenants.find`. -/
theorem not_call_of_known {m m' : Memo n} {l : List (ReadEvent n)} (h : m.run l = some m')
    (set : m.known.isSome) (j : Fin n) : .call j ∉ l := by
  induction l generalizing m with
  | nil => exact List.not_mem_nil _
  | cons e l ih =>
    obtain ⟨m₁, step₁, rest⟩ := run_cons h
    refine List.not_mem_cons_of_ne_of_not_mem (fun same => ?_)
      (ih rest (by rw [known_step step₁ set]; exact set))
    subst same
    simp only [step] at step₁
    split at step₁
    · rename_i guard; simp [guard.1] at set
    · cases step₁

/-- The id known at the end is the one a call returned. -/
theorem found_of_known {m m' : Memo n} {l : List (ReadEvent n)} (h : m.run l = some m')
    {pid : String} (known : m'.known = some pid) : m.known = some pid ∨ ∃ i, .found i pid ∈ l := by
  induction l generalizing m with
  | nil => cases h; exact .inl known
  | cons e l ih =>
    obtain ⟨m₁, step₁, rest⟩ := run_cons h
    rcases ih rest with earlier | ⟨i, member⟩
    · cases e with
      | found i pid' =>
        simp only [step] at step₁
        split at step₁
        · cases step₁; cases earlier; exact .inr ⟨i, List.mem_cons_self _ _⟩
        · cases step₁
      | _ => simp only [step] at step₁; split at step₁ <;> cases step₁; exact .inl earlier
    · exact .inr ⟨i, List.mem_cons_of_mem _ member⟩

/-- A call that returned makes its id the known one, for good. -/
theorem known_of_found {m m' : Memo n} {l : List (ReadEvent n)} (h : m.run l = some m')
    {i : Fin n} {pid : String} (member : .found i pid ∈ l) : m'.known = some pid := by
  obtain ⟨pre, post, rfl⟩ := List.append_of_mem member
  rw [run_append] at h
  cases before : m.run pre with
  | none => rw [before] at h; cases h
  | some m₀ =>
    rw [before, Option.some_bind] at h
    obtain ⟨m₁, step₁, rest⟩ := run_cons h
    simp only [step] at step₁
    split at step₁
    · cases step₁
      exact (known_run rest rfl).trans rfl
    · cases step₁

/-- Every returning read returned the id known at the end. -/
theorem returned_known {m m' : Memo n} {l : List (ReadEvent n)} (h : m.run l = some m')
    {j : Fin n} {v : Option String} (member : .returned j v ∈ l) : v.isSome ∧ v = m'.known := by
  induction l generalizing m with
  | nil => cases member
  | cons e l ih =>
    obtain ⟨m₁, step₁, rest⟩ := run_cons h
    rcases List.mem_cons.mp member with rfl | member
    · simp only [step] at step₁
      split at step₁
      · rename_i guard
        cases step₁
        exact ⟨guard.1, guard.2.trans (known_run rest (guard.2 ▸ guard.1)).symm⟩
      · cases step₁
    · exact ih rest member

/-- A read raises only what its thread is owed. -/
theorem owed_of_raised {m m' : Memo n} {l : List (ReadEvent n)} (h : m.run l = some m')
    {j : Fin n} {e : PyExc} (member : .raised j e ∈ l) : .failed j e ∈ l ∨ m.owes j = some e := by
  induction l generalizing m with
  | nil => cases member
  | cons e₀ l ih =>
    obtain ⟨m₁, step₁, rest⟩ := run_cons h
    rcases List.mem_cons.mp member with rfl | member
    · simp only [step] at step₁
      split at step₁
      · exact .inr ‹_›
      · cases step₁
    · rcases ih rest member with failed | owed
      · exact .inl (List.mem_cons_of_mem _ failed)
      · rcases owes_step step₁ j with same | ⟨e', rfl, now⟩ | ⟨e', -, -, now⟩
        · exact .inr (same ▸ owed)
        · rw [owed] at now; cases now; exact .inl (List.mem_cons_self _ _)
        · rw [owed] at now; cases now

/-- What a thread is owed, it is paid by its raise, or still owed. -/
theorem raised_of_owed {m m' : Memo n} {l : List (ReadEvent n)} (h : m.run l = some m')
    {j : Fin n} {e : PyExc} (owed : m.owes j = some e) : .raised j e ∈ l ∨ m'.owes j = some e := by
  induction l generalizing m with
  | nil => cases h; exact .inr owed
  | cons e₀ l ih =>
    obtain ⟨m₁, step₁, rest⟩ := run_cons h
    rcases owes_step step₁ j with same | ⟨e', rfl, -⟩ | ⟨e', rfl, was, -⟩
    · exact (ih rest (same ▸ owed)).imp_left (List.mem_cons_of_mem _)
    · simp only [step, owed] at step₁
      split at step₁
      · rename_i guard; cases guard.2
      · cases step₁
    · rw [owed] at was; cases was; exact .inl (List.mem_cons_self _ _)

theorem run_of_append {m m' : Memo n} {l l' : List (ReadEvent n)} (h : m.run (l ++ l') = some m') :
    ∃ m₁, m.run l = some m₁ ∧ m₁.run l' = some m' := by
  rw [run_append] at h
  cases first : m.run l with
  | none => rw [first] at h; cases h
  | some m₁ => rw [first, Option.some_bind] at h; exact ⟨m₁, rfl, h⟩

/-- No call of `tenants.find` follows one that returned. -/
theorem not_call_after_found {m m' : Memo n} {pre post : List (ReadEvent n)} {i : Fin n}
    {pid : String} (h : m.run (pre ++ .found i pid :: post) = some m') (j : Fin n) :
    .call j ∉ post := by
  obtain ⟨m₀, -, rest⟩ := run_of_append h
  obtain ⟨m₁, step₁, rest⟩ := run_cons rest
  simp only [step] at step₁
  split at step₁
  · cases step₁; exact not_call_of_known rest rfl j
  · cases step₁

/-- A failure of thread `j`'s call is raised by a later read of `j`, or still owed. -/
theorem raised_after_failed {m m' : Memo n} {pre post : List (ReadEvent n)} {j : Fin n}
    {e : PyExc} (h : m.run (pre ++ .failed j e :: post) = some m') :
    .raised j e ∈ post ∨ m'.owes j = some e := by
  obtain ⟨m₀, -, rest⟩ := run_of_append h
  obtain ⟨m₁, step₁, rest⟩ := run_cons rest
  simp only [step] at step₁
  split at step₁
  · cases step₁; exact raised_of_owed rest (by simp)
  · cases step₁

end Memo

/-! ### Readers -/

/-- `n` reader threads with keystone's state, the dispatcher's `_gnocchi_project_id` and
the thread that holds `_gnocchi_project_id_lock`, if one does, and the log of what they
did. -/
structure Readers (σ : Type) (n : Nat) where
  remote : σ
  projectId : Option String
  holder : Option (Fin n)
  phase : Fin n → Reading
  log : List (ReadEvent n)

namespace Readers

variable {σ τ : Type} {n : Nat}

/-- What `__init__` leaves, with no thread reading yet. -/
def start (remote : σ) : Readers σ n := ⟨remote, none, none, fun _ => .idle, []⟩

/-- A world's keystone and attribute, with one thread starting a read. -/
def ofWorld (w : World σ τ) : Readers σ 1 := ⟨w.remote, w.gnocchiProjectId, none, fun _ => .check, []⟩

/-- Thread `i` moves to `p`. -/
def moveTo (s : Readers σ n) (i : Fin n) (p : Reading) : Readers σ n :=
  { s with phase := Function.update s.phase i p }

/-- Log `e`. -/
def emit (s : Readers σ n) (e : ReadEvent n) : Readers σ n := { s with log := s.log ++ [e] }

@[simp] theorem moveTo_remote (s : Readers σ n) (i : Fin n) (p : Reading) :
    (s.moveTo i p).remote = s.remote := rfl

@[simp] theorem moveTo_projectId (s : Readers σ n) (i : Fin n) (p : Reading) :
    (s.moveTo i p).projectId = s.projectId := rfl

@[simp] theorem moveTo_holder (s : Readers σ n) (i : Fin n) (p : Reading) :
    (s.moveTo i p).holder = s.holder := rfl

@[simp] theorem moveTo_phase (s : Readers σ n) (i : Fin n) (p : Reading) :
    (s.moveTo i p).phase = Function.update s.phase i p := rfl

@[simp] theorem moveTo_log (s : Readers σ n) (i : Fin n) (p : Reading) :
    (s.moveTo i p).log = s.log := rfl

@[simp] theorem emit_remote (s : Readers σ n) (e : ReadEvent n) : (s.emit e).remote = s.remote := rfl

@[simp] theorem emit_projectId (s : Readers σ n) (e : ReadEvent n) :
    (s.emit e).projectId = s.projectId := rfl

@[simp] theorem emit_holder (s : Readers σ n) (e : ReadEvent n) : (s.emit e).holder = s.holder := rfl

@[simp] theorem emit_phase (s : Readers σ n) (e : ReadEvent n) : (s.emit e).phase = s.phase := rfl

@[simp] theorem emit_log (s : Readers σ n) (e : ReadEvent n) : (s.emit e).log = s.log ++ [e] := rfl

end Readers

namespace GnocchiDispatcher

variable {σ τ : Type} {n : Nat} (d : GnocchiDispatcher σ τ)

/-! ### Steps and runs -/

/-- One atomic step of reader `i`: `none` while it waits for the lock. -/
def readStep (s : Readers σ n) (i : Fin n) : Option (Readers σ n) :=
  match s.phase i with
  | .idle => some (s.moveTo i .check)
  | .check => some (s.moveTo i (if s.projectId.isSome then .early else .waiting))
  | .early => some ((s.moveTo i .idle).emit (.returned i s.projectId))
  | .waiting => if s.holder = none then some { s.moveTo i .recheck with holder := some i } else none
  | .recheck =>
    some (if s.projectId = none then (s.moveTo i .calling).emit (.call i) else s.moveTo i .leaving)
  | .calling =>
    match d.tenantsFind d.filterProject s.remote with
    | (.ok pid, remote) => some (Readers.emit { s.moveTo i (.setting pid) with remote } (.found i pid))
    | (.error e, remote) => some (Readers.emit { s.moveTo i (.raising e) with remote } (.failed i e))
  | .raising e => some (Readers.emit { s.moveTo i .idle with holder := none } (.raised i e))
  | .setting pid => some { s.moveTo i .logging with projectId := some pid }
  | .logging =>
    match s.projectId with
    | some pid => some ((s.moveTo i .leaving).emit (.returned i (some pid)))
    | none => none
  | .leaving => some (Readers.emit { s.moveTo i .idle with holder := none } (.returned i s.projectId))

/-- The states that some interleaving of reads reaches from `start`. -/
inductive ReadReachable (start : Readers σ n) : Readers σ n → Prop
  | init : ReadReachable start start
  | step {s s' : Readers σ n} (i : Fin n) :
      ReadReachable start s → d.readStep s i = some s' → ReadReachable start s'

/-- The steps of a schedule, in order; `none` if a thread of it cannot step. -/
def readRun : Readers σ n → List (Fin n) → Option (Readers σ n)
  | s, [] => some s
  | s, i :: rest => (d.readStep s i).bind (readRun · rest)

/-- Thread `i` alone, until its read ends, for at most `fuel` steps. -/
def readAlone (i : Fin n) : Nat → Readers σ n → Readers σ n
  | 0, s => s
  | fuel + 1, s =>
    if s.phase i = .idle then s else
    match d.readStep s i with
    | some s' => readAlone i fuel s'
    | none => s

theorem reachable_of_readRun {start s s' : Readers σ n} {sched : List (Fin n)}
    (reach : d.ReadReachable start s) (run : d.readRun s sched = some s') :
    d.ReadReachable start s' := by
  induction sched generalizing s with
  | nil => exact Option.some.inj run ▸ reach
  | cons i rest ih =>
    simp only [readRun] at run
    cases h : d.readStep s i with
    | none => simp [h] at run
    | some s₁ =>
      rw [h, Option.some_bind] at run
      exact ih (reach.step i h) run

/-- A schedule from `start` that ends where `p` holds. -/
theorem reach_of_readRun (start : Readers σ n) (sched : List (Fin n)) {p : Readers σ n → Bool}
    (ends : (d.readRun start sched).map p = some true) :
    ∃ s, d.ReadReachable start s ∧ p s = true := by
  cases run : d.readRun start sched with
  | none => simp [run] at ends
  | some s =>
    rw [run, Option.map_some'] at ends
    exact ⟨s, d.reachable_of_readRun .init run, Option.some.inj ends⟩

/-! ### A thread alone -/

/-- A thread that reads alone ends its read where `gnocchiProjectId` ends: with keystone's
state and the attribute it leaves, having returned or raised what it returns or raises. -/
theorem readAlone_gnocchiProjectId (w : World σ τ) :
    let r := d.gnocchiProjectId w
    let s := d.readAlone 0 7 (.ofWorld w)
    s.remote = (final r).remote ∧ s.projectId = (final r).gnocchiProjectId ∧ s.phase 0 = .idle ∧
      s.log.getLast? = some (.ofOutcome 0 (outcome r)) := by
  intro r s
  cases known : w.gnocchiProjectId with
  | some pid =>
    simp [s, r, readAlone, readStep, Readers.ofWorld, gnocchiProjectId, known, ReadEvent.ofOutcome,
      final]
  | none =>
    cases answer : d.tenantsFind d.filterProject w.remote with
    | mk result remote =>
      cases result <;>
        simp [s, r, readAlone, readStep, Readers.ofWorld, gnocchiProjectId, known, answer,
          ReadEvent.ofOutcome, final]

end GnocchiDispatcher

/-! ### The readers implement the memo -/

namespace Readers

variable {σ : Type} {n : Nat}

/-- The memo knows the attribute, runs no call and owes nothing. -/
def Settled (projectId : Option String) (m : Memo n) : Prop :=
  m.known = projectId ∧ m.busy = none ∧ m.owes = fun _ => none

/-- What the memo is while the lock's holder `h` is at `p`: the holder's call is the running
one, its exception the only one owed, and the id its call returned the known one before it
is set. -/
def HolderAt (projectId : Option String) (m : Memo n) (h : Fin n) : Reading → Prop
  | .recheck => Settled projectId m
  | .calling => projectId = none ∧ m.known = none ∧ m.busy = some h ∧ m.owes = fun _ => none
  | .raising e =>
    m.known = projectId ∧ m.busy = none ∧ m.owes = Function.update (fun _ => none) h (some e)
  | .setting pid => projectId = none ∧ m.known = some pid ∧ m.busy = none ∧ m.owes = fun _ => none
  | .logging | .leaving => projectId.isSome ∧ Settled projectId m
  | _ => False

/-- Only the places inside the lock have a memo. -/
theorem HolderAt.locked {projectId : Option String} {m : Memo n} {h : Fin n} :
    ∀ {q : Reading}, HolderAt projectId m h q → q.locked = true
  | .recheck, _ | .calling, _ | .raising _, _ | .setting _, _ | .logging, _ | .leaving, _ => rfl
  | .idle, here | .check, here | .early, here | .waiting, here => here.elim

/-- The memo knows the attribute, unless the holder has not set it yet. -/
theorem HolderAt.known {projectId : Option String} {m : Memo n} {h : Fin n} :
    ∀ {q : Reading}, HolderAt projectId m h q → m.known = projectId ∨ projectId = none
  | .recheck, here | .raising _, here => .inl here.1
  | .calling, here | .setting _, here => .inr here.1
  | .logging, here | .leaving, here => .inl here.2.1
  | .idle, here | .check, here | .early, here | .waiting, here => here.elim

/-- The memo owes nothing, or the holder's exception to the holder while it raises it. -/
theorem HolderAt.owes {projectId : Option String} {m : Memo n} {h : Fin n} :
    ∀ {q : Reading}, HolderAt projectId m h q → m.owes = (fun _ => none) ∨
      ∃ e, q = .raising e ∧ m.owes = Function.update (fun _ => none) h (some e)
  | .recheck, here => .inl here.2.2
  | .calling, here | .setting _, here => .inl here.2.2.2
  | .logging, here | .leaving, here => .inl here.2.2.2
  | .raising e, here => .inr ⟨e, rfl, here.2.2⟩
  | .idle, here | .check, here | .early, here | .waiting, here => here.elim

/-- The memo that the readers' state makes: settled while the lock is free, and what its
holder's place says otherwise. -/
def Matches (s : Readers σ n) (m : Memo n) : Prop :=
  match s.holder with
  | none => Settled s.projectId m
  | some h => HolderAt s.projectId m h (s.phase h)

theorem matches_of_free {s : Readers σ n} {m : Memo n} (free : s.holder = none) :
    s.Matches m ↔ Settled s.projectId m := by
  simp [Matches, free]

theorem matches_of_held {s : Readers σ n} {m : Memo n} {h : Fin n} (held : s.holder = some h) :
    s.Matches m ↔ HolderAt s.projectId m h (s.phase h) := by
  simp [Matches, held]

theorem matches_of_holder {s : Readers σ n} {m : Memo n} {h : Fin n}
    (here : HolderAt s.projectId m h (s.phase h)) (held : s.holder = some h) : s.Matches m :=
  (matches_of_held held).mpr here

/-- The readers implement the memo `m`: it accepted their log, only the lock's holder is
between its recheck and its return, a thread at the unlocked `return` saw the attribute set,
and `m` is the memo the readers' state makes. -/
structure Implements (s : Readers σ n) (m : Memo n) : Prop where
  logged : Memo.init.run s.log = some m
  held : ∀ i, (s.phase i).locked = true → s.holder = some i
  early : ∀ i, s.phase i = .early → s.projectId.isSome = true
  agrees : s.Matches m

theorem implements_start (remote : σ) : (Readers.start remote : Readers σ n).Implements .init :=
  ⟨rfl, (fun _ locked => by cases locked), (fun _ early => by cases early),
    (matches_of_free rfl).mpr ⟨rfl, rfl, rfl⟩⟩

namespace Implements

variable {s : Readers σ n} {m : Memo n} {i : Fin n}

theorem holderAt (impl : s.Implements m) (hp : (s.phase i).locked = true) :
    HolderAt s.projectId m i (s.phase i) :=
  (matches_of_held (impl.held i hp)).mp impl.agrees

/-- Every thread but the lock's holder is out of the lock. -/
theorem unlocked_of_ne (impl : s.Implements m) (hi : s.holder = some i) {j : Fin n} (hj : j ≠ i) :
    (s.phase j).locked = false :=
  Bool.eq_false_iff.mpr fun locked => hj (Option.some.inj ((impl.held j locked).symm.trans hi))

theorem locked_of_holder (impl : s.Implements m) (hi : s.holder = some i) :
    (s.phase i).locked = true :=
  ((matches_of_held hi).mp impl.agrees).locked

/-- The memo knows the attribute, unless it is unset. -/
theorem known_or_unset (impl : s.Implements m) : m.known = s.projectId ∨ s.projectId = none := by
  cases free : s.holder with
  | none => exact .inl ((matches_of_free free).mp impl.agrees).1
  | some h => exact ((matches_of_held free).mp impl.agrees).known

/-- The memo owes an exception only to the thread that is raising it. -/
theorem raising_of_owes (impl : s.Implements m) {j : Fin n} {e : PyExc} (owed : m.owes j = some e) :
    s.phase j = .raising e := by
  have settled : m.owes ≠ fun _ => none := fun none => by rw [none] at owed; cases owed
  cases free : s.holder with
  | none => exact (settled ((matches_of_free free).mp impl.agrees).2.2).elim
  | some h =>
    obtain none | ⟨e', raising, owes⟩ := ((matches_of_held free).mp impl.agrees).owes
    · exact (settled none).elim
    by_cases same : j = h
    · subst same; rw [owes, Function.update_same] at owed; cases owed; exact raising
    · rw [owes, Function.update_noteq same] at owed; cases owed

theorem held_update (impl : s.Implements m) (hi : s.holder = some i) {p : Reading}
    {holder : Option (Fin n)} (keep : p.locked = true → holder = some i) :
    ∀ j, (Function.update s.phase i p j).locked = true → holder = some j := by
  intro j locked
  by_cases same : j = i
  · subst same; rw [Function.update_same] at locked; exact keep locked
  · rw [Function.update_noteq same, impl.unlocked_of_ne hi same] at locked; cases locked

theorem early_update (impl : s.Implements m) {p : Reading} (hp : p ≠ .early)
    {projectId : Option String} (more : s.projectId.isSome = true → projectId.isSome = true) :
    ∀ j, Function.update s.phase i p j = .early → projectId.isSome = true := by
  intro j early
  by_cases same : j = i
  · subst same; rw [Function.update_same] at early; exact absurd early hp
  · rw [Function.update_noteq same] at early; exact more (impl.early j early)

theorem holderAt_of_phase (impl : s.Implements m) {q : Reading} (hp : s.phase i = q)
    (locked : q.locked = true) : s.holder = some i ∧ HolderAt s.projectId m i q := by
  subst hp
  exact ⟨impl.held i locked, impl.holderAt locked⟩

theorem logged_emit (impl : s.Implements m) {e : ReadEvent n} {m' : Memo n}
    (accepted : m.step e = some m') : Memo.init.run (s.log ++ [e]) = some m' := by
  rw [Memo.run_append_singleton, impl.logged, Option.some_bind, accepted]

/-- A logged event the memo accepts without change. -/
theorem emit_same (impl : s.Implements m) {e : ReadEvent n} (accepted : m.step e = some m) :
    (s.emit e).Implements m :=
  ⟨impl.logged_emit accepted, impl.held, impl.early, impl.agrees⟩

/-- The lock's holder moves on inside the lock: the readers implement `m'` once `m'` accepts
their log and is what the holder's new place says. -/
theorem holder_moveTo (impl : s.Implements m) (hi : s.holder = some i) {p : Reading}
    (early : p ≠ .early) {s' : Readers σ n} {m' : Memo n} (phase : s'.phase = Function.update s.phase i p)
    (holder : s'.holder = s.holder) (set : s.projectId.isSome = true → s'.projectId.isSome = true)
    (logged : Memo.init.run s'.log = some m') (here : HolderAt s'.projectId m' i p) :
    s'.Implements m' := by
  refine ⟨logged, fun j locked => ?_, fun j hj => ?_, matches_of_holder ?_ (holder.trans hi)⟩
  · rw [holder]; exact impl.held_update hi (fun _ => hi) j (by rwa [phase] at locked)
  · exact impl.early_update early set j (by rwa [phase] at hj)
  · rwa [phase, Function.update_same]

/-- The lock's holder leaves the `with`, releasing the lock. -/
theorem release (impl : s.Implements m) (hi : s.holder = some i) {s' : Readers σ n} {m' : Memo n}
    (phase : s'.phase = Function.update s.phase i .idle) (holder : s'.holder = none)
    (same : s'.projectId = s.projectId) (logged : Memo.init.run s'.log = some m')
    (settled : Settled s.projectId m') : s'.Implements m' := by
  refine ⟨logged, fun j locked => ?_, fun j hj => ?_, (matches_of_free holder).mpr (same ▸ settled)⟩
  · rw [phase] at locked
    exact holder ▸ impl.held_update (p := .idle) hi (by nofun) j locked
  · rw [phase] at hj
    exact same ▸ impl.early_update (p := .idle) (by nofun) id j hj

/-- A thread out of the lock moves to another place out of it. -/
theorem moveTo_free (impl : s.Implements m) (was : (s.phase i).locked = false) {p : Reading}
    (now : p.locked = false) (early : p = .early → s.projectId.isSome = true) :
    (s.moveTo i p).Implements m := by
  refine ⟨impl.logged, fun j locked => ?_, fun j hj => ?_, ?_⟩
  · by_cases same : j = i
    · subst same; simp [now] at locked
    · exact impl.held j (by simpa [same] using locked)
  · by_cases same : j = i
    · subst same; exact early (by simpa using hj)
    · exact impl.early j (by simpa [same] using hj)
  · cases free : s.holder with
    | none => exact (matches_of_free (s := s.moveTo i p) free).mpr ((matches_of_free free).mp impl.agrees)
    | some h =>
      have other : h ≠ i := fun same => by
        subst same; rw [impl.locked_of_holder free] at was; cases was
      refine (matches_of_held (s := s.moveTo i p) free).mpr ?_
      rw [moveTo_phase, Function.update_noteq other]
      exact (matches_of_held free).mp impl.agrees

/-- `with self._gnocchi_project_id_lock` takes the free lock. -/
theorem acquire (impl : s.Implements m) (free : s.holder = none) :
    ({ s.moveTo i .recheck with holder := some i } : Readers σ n).Implements m := by
  refine ⟨impl.logged, fun j locked => ?_, impl.early_update (by nofun) id, ?_⟩
  · by_cases same : j = i
    · rw [same]
    · rw [impl.held j (by simpa [same] using locked)] at free; cases free
  · show HolderAt s.projectId m i (Function.update s.phase i .recheck i)
    rw [Function.update_same]
    exact (matches_of_free free).mp impl.agrees

/-- The recheck finds the attribute unset, and the holder calls `tenants.find`. -/
theorem call (impl : s.Implements m) (hp : s.phase i = .recheck) (unset : s.projectId = none) :
    ((s.moveTo i .calling).emit (.call i)).Implements { m with busy := some i } := by
  obtain ⟨hi, known, busy, owes⟩ := impl.holderAt_of_phase hp rfl
  exact impl.holder_moveTo hi (by nofun) rfl rfl id
    (impl.logged_emit (by simp [Memo.step, known, unset, busy, owes])) ⟨unset, known.trans unset, rfl, owes⟩

/-- The recheck finds the attribute set, and the holder goes to the locked `return`. -/
theorem recheck_set (impl : s.Implements m) (hp : s.phase i = .recheck)
    (set : s.projectId.isSome = true) : (s.moveTo i .leaving).Implements m := by
  obtain ⟨hi, settled⟩ := impl.holderAt_of_phase hp rfl
  exact impl.holder_moveTo hi (by nofun) rfl rfl id impl.logged ⟨set, settled⟩

/-- `tenants.find` returns a project. -/
theorem found (impl : s.Implements m) (hp : s.phase i = .calling) (pid : String) (remote : σ) :
    (Readers.emit { s.moveTo i (.setting pid) with remote } (.found i pid)).Implements
      { m with known := some pid, busy := none } := by
  obtain ⟨hi, unset, known, busy, owes⟩ := impl.holderAt_of_phase hp rfl
  exact impl.holder_moveTo hi (by nofun) rfl rfl id
    (impl.logged_emit (by simp [Memo.step, known, busy])) ⟨unset, rfl, rfl, owes⟩

/-- `tenants.find` raises. -/
theorem failed (impl : s.Implements m) (hp : s.phase i = .calling) (e : PyExc) (remote : σ) :
    (Readers.emit { s.moveTo i (.raising e) with remote } (.failed i e)).Implements
      { m with busy := none, owes := Function.update m.owes i (some e) } := by
  obtain ⟨hi, unset, known, busy, owes⟩ := impl.holderAt_of_phase hp rfl
  exact impl.holder_moveTo hi (by nofun) rfl rfl id
    (impl.logged_emit (by simp [Memo.step, busy, owes])) ⟨known.trans unset.symm, rfl, by rw [owes]⟩

/-- The holder leaves the `with` with the exception, and its read raises it. -/
theorem raise (impl : s.Implements m) {e : PyExc} (hp : s.phase i = .raising e) :
    (Readers.emit { s.moveTo i .idle with holder := none } (.raised i e)).Implements
      { m with owes := Function.update m.owes i none } := by
  obtain ⟨hi, known, busy, owes⟩ := impl.holderAt_of_phase hp rfl
  refine impl.release hi rfl rfl rfl (impl.logged_emit (by simp [Memo.step, owes])) ⟨known, busy, ?_⟩
  rw [owes]
  funext j
  by_cases same : j = i <;> simp [same]

/-- `self._gnocchi_project_id = project.id`. -/
theorem store (impl : s.Implements m) {pid : String} (hp : s.phase i = .setting pid) :
    ({ s.moveTo i .logging with projectId := some pid } : Readers σ n).Implements m := by
  obtain ⟨hi, -, known, busy, owes⟩ := impl.holderAt_of_phase hp rfl
  exact impl.holder_moveTo hi (by nofun) rfl rfl (fun _ => rfl) impl.logged ⟨rfl, known, busy, owes⟩

/-- The read inside `LOG.debug` returns the attribute through its unlocked check. -/
theorem log (impl : s.Implements m) (hp : s.phase i = .logging) {pid : String}
    (set : s.projectId = some pid) :
    ((s.moveTo i .leaving).emit (.returned i (some pid))).Implements m := by
  obtain ⟨hi, settled⟩ := impl.holderAt_of_phase hp rfl
  exact impl.holder_moveTo hi (by nofun) rfl rfl id
    (impl.logged_emit (by simp [Memo.step, settled.2.1, set])) settled

/-- The locked `return` reads the attribute and releases the lock. -/
theorem leave (impl : s.Implements m) (hp : s.phase i = .leaving) :
    (Readers.emit { s.moveTo i .idle with holder := none } (.returned i s.projectId)).Implements m := by
  obtain ⟨hi, set, settled⟩ := impl.holderAt_of_phase hp rfl
  exact impl.release hi rfl rfl rfl (impl.logged_emit (by simp [Memo.step, set, settled.1])) settled

end Implements

end Readers

namespace GnocchiDispatcher

variable {σ τ : Type} {n : Nat} (d : GnocchiDispatcher σ τ)

/-- Every step keeps the readers implementing a memo, the memo accepting what it logs. -/
theorem implements_readStep {s s' : Readers σ n} {m : Memo n} (impl : s.Implements m) {i : Fin n}
    (h : d.readStep s i = some s') : ∃ m', s'.Implements m' := by
  unfold readStep at h
  cases hp : s.phase i <;> simp only [hp] at h
  case idle => cases h; exact ⟨m, impl.moveTo_free (by rw [hp]; rfl) (by rfl) (by nofun)⟩
  case check =>
    cases h
    by_cases set : s.projectId.isSome
    · rw [if_pos set]; exact ⟨m, impl.moveTo_free (by rw [hp]; rfl) (by rfl) fun _ => set⟩
    · rw [if_neg set]; exact ⟨m, impl.moveTo_free (by rw [hp]; rfl) (by rfl) (by nofun)⟩
  case early =>
    cases h
    have set := impl.early i hp
    have known := impl.known_or_unset.resolve_right fun unset => by rw [unset] at set; cases set
    exact ⟨m, (impl.moveTo_free (by rw [hp]; rfl) (by rfl) (by nofun)).emit_same
      (by simp [Memo.step, set, known])⟩
  case waiting =>
    split at h
    · cases h; exact ⟨m, impl.acquire ‹_›⟩
    · cases h
  case recheck =>
    cases h
    by_cases unset : s.projectId = none
    · rw [if_pos unset]; exact ⟨_, impl.call hp unset⟩
    · rw [if_neg unset]; exact ⟨m, impl.recheck_set hp (Option.ne_none_iff_isSome.mp unset)⟩
  case calling =>
    split at h <;> cases h
    · exact ⟨_, impl.found hp _ _⟩
    · exact ⟨_, impl.failed hp _ _⟩
  case raising => cases h; exact ⟨_, impl.raise hp⟩
  case setting => cases h; exact ⟨m, impl.store hp⟩
  case logging =>
    split at h
    · cases h; exact ⟨m, impl.log hp ‹_›⟩
    · cases h
  case leaving => cases h; exact ⟨m, impl.leave hp⟩

/-- Along every interleaving, the readers implement a memo. -/
theorem ReadReachable.implements {remote : σ} {s : Readers σ n}
    (reach : d.ReadReachable (.start remote) s) : ∃ m, s.Implements m := by
  induction reach with
  | init => exact ⟨.init, Readers.implements_start remote⟩
  | step _ _ h ih =>
    obtain ⟨m, impl⟩ := ih
    exact d.implements_readStep impl h

/-- Thread-safe lazy project id, over every interleaving of any number of readers and
whatever keystone answers: `tenants.find` never runs in two threads at once, and is not called
after a call that returned; every read that returns gets the id that call returned; a read
raises only what its own call raised, and every exception a call raised is raised by that
thread's read or is on its way there; until a call returns, `_gnocchi_project_id` is `None`. -/
theorem project_id_resolved_once (remote : σ) {s : Readers σ n}
    (reach : d.ReadReachable (.start remote) s) :
    (∀ i j, s.phase i = .calling → s.phase j = .calling → i = j) ∧
      (∀ pre post i pid, s.log = pre ++ .found i pid :: post → ∀ j, .call j ∉ post) ∧
      (∀ j v, .returned j v ∈ s.log → ∃ i pid, v = some pid ∧ .found i pid ∈ s.log ∧
        ∀ j' v', .returned j' v' ∈ s.log → v' = v) ∧
      (∀ j e, .raised j e ∈ s.log → .failed j e ∈ s.log) ∧
      (∀ pre post j e, s.log = pre ++ .failed j e :: post → .raised j e ∈ post ∨ s.phase j = .raising e) ∧
      ((∀ i pid, .found i pid ∉ s.log) → s.projectId = none) := by
  obtain ⟨m, impl⟩ := reach.implements
  have known : ∀ pid, m.known = some pid → ∃ i, .found i pid ∈ s.log := fun pid known =>
    (Memo.found_of_known impl.logged known).resolve_left nofun
  refine ⟨fun i j hi hj => ?_, fun pre post i pid split j => ?_, fun j v member => ?_,
    fun j e member => ?_, fun pre post j e split => ?_, fun none => ?_⟩
  · exact Option.some.inj ((impl.held i (by rw [hi]; rfl)).symm.trans (impl.held j (by rw [hj]; rfl)))
  · exact Memo.not_call_after_found (split ▸ impl.logged) j
  · obtain ⟨set, same⟩ := Memo.returned_known impl.logged member
    obtain ⟨pid, rfl⟩ := Option.isSome_iff_exists.mp set
    obtain ⟨i, found⟩ := known pid same.symm
    exact ⟨i, pid, rfl, found, fun j' v' member' =>
      (Memo.returned_known impl.logged member').2.trans same.symm⟩
  · exact (Memo.owed_of_raised impl.logged member).resolve_right nofun
  · exact (Memo.raised_after_failed (split ▸ impl.logged)).imp_right impl.raising_of_owes
  · cases impl.known_or_unset with
    | inl same =>
      rw [← same]
      cases unknown : m.known with
      | none => rfl
      | some pid => obtain ⟨i, found⟩ := known pid unknown; exact absurd found (none i pid)
    | inr unset => exact unset

end GnocchiDispatcher

/-- A dispatcher whose keystone refuses the first `tenants.find` and then finds project `p1`;
its state counts the calls. -/
def flakyKeystone : GnocchiDispatcher Nat Unit :=
  ⟨true, "service", [], fun _ s => (.ok (), s),
    fun _ calls => if calls = 0 then (.error (.other "Unauthorized"), 1) else (.ok "p1", calls + 1),
    none, id, fun _ => 0⟩

namespace GnocchiDispatcher

/-- Two readers: the first one's call raises and its read raises that; the second one, which
waited for the lock, calls again and gets `p1`, and the first one's next read returns `p1`
with no lock. -/
theorem retried_lookup_resolved :
    ∃ s : Readers Nat 2, flakyKeystone.ReadReachable (.start 0) s ∧
      s.log = [.call 0, .failed 0 (.other "Unauthorized"), .raised 0 (.other "Unauthorized"),
        .call 1, .found 1 "p1", .returned 1 (some "p1"), .returned 1 (some "p1"),
        .returned 0 (some "p1")] ∧
      ∀ j v, .returned j v ∈ s.log → ∃ i pid, v = some pid ∧ .found i pid ∈ s.log ∧
        ∀ j' v', .returned j' v' ∈ s.log → v' = v := by
  obtain ⟨s, reach, logged⟩ := reach_of_readRun flakyKeystone (.start 0 : Readers Nat 2)
    [0, 0, 0, 0, 1, 1, 0, 0, 1, 1, 1, 1, 1, 1, 0, 0, 0]
    (p := fun s => decide (s.log = [.call 0, .failed 0 (.other "Unauthorized"),
      .raised 0 (.other "Unauthorized"), .call 1, .found 1 "p1", .returned 1 (some "p1"),
      .returned 1 (some "p1"), .returned 0 (some "p1")])) (by decide)
  exact ⟨s, reach, of_decide_eq_true logged, (project_id_resolved_once flakyKeystone 0 reach).2.2.1⟩

end GnocchiDispatcher

end Ceilometer.Dispatcher
