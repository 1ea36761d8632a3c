import Mathlib.Algebra.Order.BigOperators.Group.Finset
import Ceilometer.Dispatcher.Backend
import Ceilometer.Dispatcher.Liveness

/-!
# Concurrent `_ensure_resource_and_metric`

The threads that post to one new resource, or to a new metric of it, all reach
`_ensure_resource_and_metric` with the same body. Without memcache the method is three
backend calls, each atomic on the backend the threads share:

1. `create_resource(resource_type, resource)`;
2. when that raised `ResourceAlreadyExists`, the `create_metric` block of the handler;
3. the second `create_metric` block.

A `create_metric` block reads `resource['metrics'][metric_name]` and `resource['id']`,
which touch nothing shared, before its call, and ignores `MetricAlreadyExists`; any other
exception leaves the method. Each thread is one of `n`, at a phase of the method, and a
step runs one call of one thread. With memcache, `create_resource` sits in the
double-checked block of `Threads`, and a thread that leaves the block goes on as without
memcache: to the handler on `ResourceAlreadyExists`, to the second `create_metric` block
otherwise, the cache hit included.

## Main results

- `ensureAlone_eq`: a thread run alone does what `ensureResourceAndMetric` does, without
  memcache: the same backend, and the same exception, if any.
- `EnsureCall.ensured`: what one call leaves in the store, the resource created from the
  body when it is missing, the metric added when the resource lacks it; a second call
  leaves it as it is (`ensured_ensured`).
- `concurrent_ensure_once`: for a meter that the body's `metrics` lists, whatever the
  schedule of any number of threads, the store holds what it held or what one call leaves,
  no thread raises, every thread takes at most three steps, and a schedule that no thread
  can extend leaves every thread returned and the store as one call leaves it.
- `cached_concurrent_ensure_once`: the same with memcache, for threads in any number of
  processes, when memcache keeps only what is set, holds the body's hash under the
  resource's key only once the resource is stored, and the hash is not `0` (a hash of `0`
  reads as a cache hit, and the thread goes on to `create_metric` on a missing resource).

## Proof strategy

`ensureStep_cases` says once what a step can do. Against the store, a step leaves the store
as it was, or as one call leaves it (`createResource_store`, `metricBlock_store`); since
one call's store is a fixed point of another, `EnsureInv` holds along every schedule. With
memcache, `CachedInv` adds that a cache hit on the body's hash finds the resource stored.
-/

namespace Ceilometer.Dispatcher

/-- Where a thread is in `_ensure_resource_and_metric`, without memcache: at
`create_resource`; at the handler's `create_metric` block after `ResourceAlreadyExists`; at
the second `create_metric` block; out of the method, having raised or not. -/
inductive EnsurePhase where
  | create
  | handler
  | metric
  | done (raised : Option PyExc)
  deriving DecidableEq, Repr

namespace EnsurePhase

/-- Where the answer of `create_resource` takes a thread. -/
def afterCreate : Except PyExc Unit → EnsurePhase
  | .ok () => metric
  | .error e => if e = .resourceAlreadyExists then handler else done (some e)

/-- What a `create_metric` block gives from the backend's answer: `MetricAlreadyExists` is
ignored. -/
def ignoreMetricExists : Except PyExc Unit → Except PyExc Unit
  | .ok () => .ok ()
  | .error e => if e = .metricAlreadyExists then .ok () else .error e

/-- Where the answer of a `create_metric` block takes a thread that then goes to `next`. -/
def afterMetric (next : EnsurePhase) (answer : Except PyExc Unit) : EnsurePhase :=
  match ignoreMetricExists answer with
  | .ok () => next
  | .error e => done (some e)

/-- The most steps a thread at this phase takes to leave the method. -/
def rank : EnsurePhase → Nat
  | create => 3
  | handler => 2
  | metric => 1
  | done _ => 0

theorem rank_afterCreate (answer : Except PyExc Unit) : (afterCreate answer).rank ≤ 2 := by
  unfold afterCreate
  split
  · decide
  · split <;> simp [rank]

theorem rank_afterMetric {next : EnsurePhase} (answer : Except PyExc Unit) :
    (afterMetric next answer).rank ≤ next.rank := by
  unfold afterMetric
  split
  · exact le_rfl
  · exact Nat.zero_le _

end EnsurePhase

/-- `n` threads in `_ensure_resource_and_metric`, and the backend they share. -/
structure Ensuring (σ : Type) (n : Nat) where
  remote : σ
  phase : Fin n → EnsurePhase

namespace Ensuring

variable {σ : Type} {n : Nat}

/-- Every thread at `create_resource`. -/
def start (remote : σ) : Ensuring σ n := ⟨remote, fun _ => .create⟩

/-- The steps the threads have left, at most. -/
def pending (s : Ensuring σ n) : Nat := ∑ i, (s.phase i).rank

theorem pending_start (remote : σ) : (start remote : Ensuring σ n).pending = 3 * n := by
  simp [pending, start, EnsurePhase.rank, mul_comm]

end Ensuring

namespace GnocchiDispatcher

variable {σ τ : Type} {n : Nat} (d : GnocchiDispatcher σ τ) (rt : String) (resource : Dict) (m : String)

/-- The call of a `create_metric` block, after `resource['metrics'][metric_name]` and
`resource['id']`, which may raise. -/
def metricCall : Except PyExc Call :=
  match metricArchivePolicy resource m, resource.getItem "id" with
  | .ok archivePolicy, .ok resourceId => .ok (.createMetric rt resourceId m archivePolicy)
  | .error e, _ => .error e
  | .ok _, .error e => .error e

/-- A `create_metric` block against the backend `remote`: the backend's answer, or what the
lookups raise. -/
def metricBlock (remote : σ) : Except PyExc Unit × σ :=
  match metricCall rt resource m with
  | .ok call => d.gnocchi call remote
  | .error e => (.error e, remote)

/-- One atomic step of thread `i`, without memcache; `none` once it has left. -/
def ensureStep (s : Ensuring σ n) (i : Fin n) : Option (Ensuring σ n) :=
  match s.phase i with
  | .create =>
    some ⟨(d.gnocchi (.createResource rt resource) s.remote).2,
      Function.update s.phase i (.afterCreate (d.gnocchi (.createResource rt resource) s.remote).1)⟩
  | .handler =>
    some ⟨(d.metricBlock rt resource m s.remote).2,
      Function.update s.phase i (.afterMetric .metric (d.metricBlock rt resource m s.remote).1)⟩
  | .metric =>
    some ⟨(d.metricBlock rt resource m s.remote).2,
      Function.update s.phase i (.afterMetric (.done none) (d.metricBlock rt resource m s.remote).1)⟩
  | .done _ => none

/-- The steps of a schedule, in order; `none` if a thread of it has already left. -/
def ensureRun : Ensuring σ n → List (Fin n) → Option (Ensuring σ n)
  | s, [] => some s
  | s, i :: rest => (d.ensureStep rt resource m s i).bind (ensureRun · rest)

/-- Run thread `i` alone, for at most `fuel` steps. -/
def ensureAlone (i : Fin n) : Nat → Ensuring σ n → Ensuring σ n
  | 0, s => s
  | fuel + 1, s =>
    match d.ensureStep rt resource m s i with
    | some s' => ensureAlone i fuel s'
    | none => s

/-- The states that some schedule reaches from `start`. -/
inductive EnsureReachable (start : Ensuring σ n) : Ensuring σ n → Prop
  | init : EnsureReachable start start
  | step {s s' : Ensuring σ n} (i : Fin n) :
      EnsureReachable start s → d.ensureStep rt resource m s i = some s' → EnsureReachable start s'

/-- What a step can do. -/
theorem ensureStep_cases {s s' : Ensuring σ n} {i : Fin n} (h : d.ensureStep rt resource m s i = some s') :
    (s.phase i = .create ∧ s' = ⟨(d.gnocchi (.createResource rt resource) s.remote).2,
        Function.update s.phase i (.afterCreate (d.gnocchi (.createResource rt resource) s.remote).1)⟩) ∨
      (∃ next, (s.phase i = .handler ∧ next = .metric ∨ s.phase i = .metric ∧ next = .done none) ∧
        s' = ⟨(d.metricBlock rt resource m s.remote).2,
          Function.update s.phase i (.afterMetric next (d.metricBlock rt resource m s.remote).1)⟩) := by
  unfold ensureStep at h
  cases hp : s.phase i <;> simp only [hp, Option.some.injEq] at h
  · exact .inl ⟨rfl, h.symm⟩
  · exact .inr ⟨_, .inl ⟨rfl, rfl⟩, h.symm⟩
  · exact .inr ⟨_, .inr ⟨rfl, rfl⟩, h.symm⟩
  · cases h

theorem ensureStep_isSome {s : Ensuring σ n} {i : Fin n} (running : ∀ r, s.phase i ≠ .done r) :
    (d.ensureStep rt resource m s i).isSome := by
  unfold ensureStep
  cases hp : s.phase i with
  | done r => exact absurd hp (running r)
  | _ => rfl

/-- Each step lowers the stepping thread's rank and moves no other thread. -/
theorem ensureStep_moves {s s' : Ensuring σ n} {i : Fin n} (h : d.ensureStep rt resource m s i = some s') :
    (s'.phase i).rank < (s.phase i).rank ∧ ∀ j ≠ i, s'.phase j = s.phase j := by
  rcases d.ensureStep_cases rt resource m h with ⟨hp, rfl⟩ | ⟨next, at_, rfl⟩ <;>
    refine ⟨?_, fun j other => Function.update_noteq other _ _⟩ <;>
    simp only [Function.update_same]
  · exact hp ▸ Nat.lt_of_le_of_lt (EnsurePhase.rank_afterCreate _) (by decide)
  · refine Nat.lt_of_le_of_lt (EnsurePhase.rank_afterMetric _) ?_
    rcases at_ with ⟨hp, rfl⟩ | ⟨hp, rfl⟩ <;> rw [hp] <;> decide

theorem ensureStep_pending {s s' : Ensuring σ n} {i : Fin n} (h : d.ensureStep rt resource m s i = some s') :
    s'.pending < s.pending := by
  have moved := d.ensureStep_moves rt resource m h
  refine Finset.sum_lt_sum (fun j _ => ?_) ⟨i, Finset.mem_univ _, moved.1⟩
  by_cases same : j = i
  · exact same ▸ moved.1.le
  · rw [moved.2 j same]

/-- The run lemma: a schedule is no longer than the steps the threads had left, and ends at
a reachable state. -/
theorem ensureRun_spec {start : Ensuring σ n} : ∀ {s s' : Ensuring σ n} {sched : List (Fin n)},
    d.EnsureReachable rt resource m start s → d.ensureRun rt resource m s sched = some s' →
    d.EnsureReachable rt resource m start s' ∧ sched.length + s'.pending ≤ s.pending
  | s, s', [], reach, run => by cases run; simpa using reach
  | s, s', i :: rest, reach, run => by
    simp only [ensureRun] at run
    cases h : d.ensureStep rt resource m s i with
    | none => simp [h] at run
    | some s₁ =>
      rw [h, Option.some_bind] at run
      have later := ensureRun_spec (reach.step i h) run
      have lower := d.ensureStep_pending rt resource m h
      exact ⟨later.1, by simp only [List.length_cons]; omega⟩

/-! ### A thread alone -/

/-- The `create_metric` block, sequentially: it gives what `metricBlock` answers, with
`MetricAlreadyExists` ignored, and leaves the backend `metricBlock` leaves. -/
theorem createMetric_result (w : World σ τ) :
    ∃ w', w'.remote = (d.metricBlock rt resource m w.remote).2 ∧
      d.createMetric rt resource m w =
        match EnsurePhase.ignoreMetricExists (d.metricBlock rt resource m w.remote).1 with
        | .ok () => .ok () w'
        | .error e => .error e w' := by
  simp only [createMetric, tryCatch_apply, bind_apply, metricBlock, metricCall]
  cases policy : metricArchivePolicy resource m with
  | error e =>
    refine ⟨w, rfl, ?_⟩
    simp only [liftExcept, throw_apply, EnsurePhase.ignoreMetricExists]
    split <;> rfl
  | ok p =>
    cases rid : resource.getItem "id" with
    | error e =>
      refine ⟨w, rfl, ?_⟩
      simp only [liftExcept, pure_apply, throw_apply, EnsurePhase.ignoreMetricExists]
      split <;> rfl
    | ok v =>
      simp only [liftExcept, pure_apply, gnocchiCall]
      cases d.gnocchi (.createMetric rt v m p) w.remote with
      | mk answer remote =>
        refine ⟨{ w with remote, calls := w.calls ++ [.createMetric rt v m p] }, rfl, ?_⟩
        cases answer with
        | ok u => rfl
        | error e =>
          simp only [EnsurePhase.ignoreMetricExists]
          split <;> rfl

theorem ensureAlone_step {i : Fin n} {s s' : Ensuring σ n} (h : d.ensureStep rt resource m s i = some s')
    (fuel : Nat) : d.ensureAlone rt resource m i (fuel + 1) s = d.ensureAlone rt resource m i fuel s' := by
  simp only [ensureAlone, h]

theorem ensureAlone_done {i : Fin n} {s : Ensuring σ n} {r : Option PyExc} (left : s.phase i = .done r) :
    ∀ fuel, d.ensureAlone rt resource m i fuel s = s
  | 0 => rfl
  | _ + 1 => by simp [ensureAlone, ensureStep, left]

/-- From a `create_metric` block, a thread alone does what the block does, and goes on to
`next` when the block returns. -/
theorem ensureAlone_block (w : World σ τ) (i : Fin n) {s : Ensuring σ n} {next : EnsurePhase}
    (at_ : s.phase i = .handler ∧ next = .metric ∨ s.phase i = .metric ∧ next = .done none)
    (remote : s.remote = w.remote) :
    ∃ s', d.ensureStep rt resource m s i = some s' ∧ s'.remote = (final (d.createMetric rt resource m w)).remote ∧
      s'.phase i = (match raised (d.createMetric rt resource m w) with
        | none => next
        | some e => .done (some e)) ∧
      ∀ j ≠ i, s'.phase j = s.phase j := by
  obtain ⟨w', remote', block⟩ := d.createMetric_result rt resource m w
  refine ⟨⟨(d.metricBlock rt resource m s.remote).2,
    Function.update s.phase i (.afterMetric next (d.metricBlock rt resource m s.remote).1)⟩, ?_, ?_, ?_,
    fun j other => Function.update_noteq other _ _⟩
  · rcases at_ with ⟨hp, rfl⟩ | ⟨hp, rfl⟩ <;> simp only [ensureStep, hp]
  · rw [block, remote, ← remote']
    split <;> rfl
  · simp only [block, remote, Function.update_same, EnsurePhase.afterMetric]
    split <;> simp_all [raised]

/-- A thread at the second `create_metric` block, alone, ends where the block ends. -/
theorem ensureAlone_metric (w : World σ τ) (i : Fin n) {s : Ensuring σ n} (at_ : s.phase i = .metric)
    (remote : s.remote = w.remote) (fuel : Nat) :
    (d.ensureAlone rt resource m i (fuel + 1) s).remote = (final (d.createMetric rt resource m w)).remote ∧
      (d.ensureAlone rt resource m i (fuel + 1) s).phase i = .done (raised (d.createMetric rt resource m w)) := by
  obtain ⟨s', step, remote', phase', -⟩ := d.ensureAlone_block rt resource m w i (.inr ⟨at_, rfl⟩) remote
  have left : s'.phase i = .done (raised (d.createMetric rt resource m w)) := by
    rw [phase']
    split <;> simp_all
  rw [ensureAlone_step d rt resource m step, ensureAlone_done d rt resource m left]
  exact ⟨remote', left⟩

/-- `_ensure_resource_and_metric` without memcache, by the answer of `create_resource`. -/
theorem ensureResourceAndMetric_uncached (uncached : d.cache = none) (w : World σ τ) :
    d.ensureResourceAndMetric rt resource m w =
      match d.gnocchi (.createResource rt resource) w.remote with
      | (.ok (), remote) =>
        d.createMetric rt resource m { w with remote, calls := w.calls ++ [.createResource rt resource] }
      | (.error e, remote) =>
        if e = .resourceAlreadyExists then
          (d.createMetric rt resource m >>= fun _ => d.createMetric rt resource m)
            { w with remote, calls := w.calls ++ [.createResource rt resource] }
        else .error e { w with remote, calls := w.calls ++ [.createResource rt resource] } := by
  simp only [ensureResourceAndMetric, bind_apply, tryCatch_apply, createResource, uncached, gnocchiCall]
  cases d.gnocchi (.createResource rt resource) w.remote with
  | mk answer remote =>
    cases answer with
    | ok u => rfl
    | error e => by_cases exists_ : e = .resourceAlreadyExists <;> simp [exists_]

/-- A thread run alone does what `_ensure_resource_and_metric` does without memcache: it
leaves the backend the method leaves, and raises what the method raises. -/
theorem ensureAlone_eq (uncached : d.cache = none) (w : World σ τ) (i : Fin n) {s : Ensuring σ n}
    (at_ : s.phase i = .create) (remote : s.remote = w.remote) :
    (d.ensureAlone rt resource m i 3 s).remote = (final (d.ensureResourceAndMetric rt resource m w)).remote ∧
      (d.ensureAlone rt resource m i 3 s).phase i = .done (raised (d.ensureResourceAndMetric rt resource m w)) := by
  have created : d.ensureStep rt resource m s i = some ⟨(d.gnocchi (.createResource rt resource) w.remote).2,
      Function.update s.phase i (.afterCreate (d.gnocchi (.createResource rt resource) w.remote).1)⟩ := by
    simp only [ensureStep, at_, remote]
  rw [ensureAlone_step d rt resource m created, d.ensureResourceAndMetric_uncached rt resource m uncached]
  obtain ⟨answer, r₁⟩ := d.gnocchi (.createResource rt resource) w.remote
  cases answer with
  | ok u =>
    exact d.ensureAlone_metric rt resource m _ i (by simp [EnsurePhase.afterCreate]) rfl 1
  | error e =>
    by_cases exists_ : e = .resourceAlreadyExists
    · subst exists_
      obtain ⟨s₂, step₂, remote₂, phase₂, -⟩ := d.ensureAlone_block rt resource m
        { w with remote := r₁, calls := w.calls ++ [.createResource rt resource] } i
        (s := ⟨r₁, Function.update s.phase i (.afterCreate (.error .resourceAlreadyExists))⟩)
        (.inl ⟨by simp [EnsurePhase.afterCreate], rfl⟩) rfl
      rw [ensureAlone_step d rt resource m step₂]
      simp only [if_true, bind_apply]
      revert remote₂ phase₂
      cases d.createMetric rt resource m { w with remote := r₁, calls := w.calls ++ [.createResource rt resource] } with
      | ok u w₂ => exact fun remote₂ phase₂ => d.ensureAlone_metric rt resource m w₂ i phase₂ remote₂ 0
      | error e w₂ =>
        intro remote₂ phase₂
        rw [ensureAlone_done d rt resource m phase₂]
        exact ⟨remote₂, phase₂⟩
    · have left : (⟨r₁, Function.update s.phase i (.afterCreate (.error e))⟩ : Ensuring σ n).phase i =
          .done (some e) := by simp [EnsurePhase.afterCreate, exists_]
      rw [ensureAlone_done d rt resource m left]
      simp [exists_, final, raised, left, EnsurePhase.afterCreate]

end GnocchiDispatcher

/-! ### Against the store -/

/-- A call of `_ensure_resource_and_metric(resource_type, resource, metric_name)` whose body
names its resource and lists the metric, as `_process_resource` builds it for a meter that
is literally one of its definition's patterns. -/
structure EnsureCall where
  resourceType : String
  resourceId : String
  metricName : String
  resource : Dict
  metrics : Dict
  archivePolicy : Value
  id : resource.get? "id" = some (.str resourceId)
  hasMetrics : resource.get? "metrics" = some (.dict metrics)
  listed : metrics.get? metricName = some archivePolicy

namespace EnsureCall

variable (b : EnsureCall)

/-- The resource `create_resource` stores from the body. -/
def created : StoredResource :=
  ⟨b.resourceType, (b.resource.delItem "metrics").get?, Store.createdMetrics b.metrics⟩

/-- What one call leaves in the store: the resource created from the body when it is
missing; the metric, with the body's archive policy and no measure, when the resource lacks
it; the store as it was otherwise. -/
def ensured (store : Store) : Store :=
  match store.resources b.resourceId with
  | none => store.set b.resourceId b.created
  | some r =>
    if (r.metrics b.metricName).isSome then store
    else store.set b.resourceId (r.setMetric b.metricName ⟨b.archivePolicy, []⟩)

/-- The resource is missing from the store, or of the call's type. -/
def TypedAt (store : Store) : Prop :=
  ∀ r, store.resources b.resourceId = some r → r.resourceType = b.resourceType

/-- The store holds the resource, of the call's type, with the metric. -/
def Holds (store : Store) : Prop :=
  ∃ r, store.resources b.resourceId = some r ∧ r.resourceType = b.resourceType ∧
    (r.metrics b.metricName).isSome

variable {b} {store : Store}

theorem holds_ensured (typed : b.TypedAt store) : b.Holds (b.ensured store) := by
  unfold ensured
  cases found : store.resources b.resourceId with
  | none => exact ⟨b.created, by simp, rfl, by simp [created, Store.createdMetrics, b.listed]⟩
  | some r =>
    by_cases has : (r.metrics b.metricName).isSome
    · exact ⟨r, by simp [found, has], typed r found, has⟩
    · exact ⟨r.setMetric b.metricName ⟨b.archivePolicy, []⟩, by simp [has], typed r found,
        by simp [StoredResource.setMetric]⟩

theorem ensured_of_holds (holds : b.Holds store) : b.ensured store = store := by
  obtain ⟨r, found, -, has⟩ := holds
  simp [ensured, found, has]

/-- A second call leaves the store as the first left it. -/
theorem ensured_ensured (typed : b.TypedAt store) : b.ensured (b.ensured store) = b.ensured store :=
  ensured_of_holds (holds_ensured typed)

theorem typedAt_ensured (typed : b.TypedAt store) : b.TypedAt (b.ensured store) := fun r found => by
  obtain ⟨r', found', rtype, -⟩ := holds_ensured typed
  rw [found', Option.some.injEq] at found
  exact found ▸ rtype

/-- `create_resource` raises `ResourceAlreadyExists` on a stored resource, and otherwise
stores what one call leaves. -/
theorem createResource_store :
    Store.apply (.createResource b.resourceType b.resource) store =
      if (store.resources b.resourceId).isSome then (.error .resourceAlreadyExists, store)
      else (.ok (), b.ensured store) := by
  split
  · exact Store.apply_createResource_present b.id ‹_›
  · have absent := Option.not_isSome_iff_eq_none.mp ‹_›
    rw [Store.apply_createResource_absent b.id b.hasMetrics absent]
    simp [ensured, absent, created]

end EnsureCall

namespace GnocchiDispatcher

variable {τ : Type} {n : Nat} {d : GnocchiDispatcher Store τ} {b : EnsureCall}

/-- On a stored resource of the call's type, a `create_metric` block returns, ignoring
`MetricAlreadyExists`, and leaves what one call leaves. -/
theorem metricBlock_store (backend : d.gnocchi = Store.apply) {store : Store}
    (present : (store.resources b.resourceId).isSome) (typed : b.TypedAt store) :
    EnsurePhase.ignoreMetricExists (d.metricBlock b.resourceType b.resource b.metricName store).1 = .ok () ∧
      (d.metricBlock b.resourceType b.resource b.metricName store).2 = b.ensured store := by
  obtain ⟨r, found⟩ := Option.isSome_iff_exists.mp present
  have call : metricCall b.resourceType b.resource b.metricName =
      .ok (.createMetric b.resourceType (.str b.resourceId) b.metricName b.archivePolicy) := by
    have idItem : b.resource.getItem "id" = .ok (.str b.resourceId) := (Dict.getItem_eq_ok _ _ _).mpr b.id
    simp only [metricCall, metricArchivePolicy_listed b.hasMetrics b.listed, idItem]
  simp only [metricBlock, call, backend]
  by_cases has : (r.metrics b.metricName).isSome
  · rw [Store.apply_createMetric_present found (typed r found) has]
    exact ⟨by simp [EnsurePhase.ignoreMetricExists], by simp [EnsureCall.ensured, found, has]⟩
  · rw [Store.apply_createMetric_new found (typed r found) (Option.not_isSome_iff_eq_none.mp has)]
    exact ⟨rfl, by simp [EnsureCall.ensured, found, has]⟩

/-- Along a schedule from `S`: the store is `S` or what one call leaves; no thread has
raised; a thread past `create_resource` has seen the resource stored; and once a thread has
returned, the store is what one call leaves. -/
structure EnsureInv (b : EnsureCall) (S : Store) (s : Ensuring Store n) : Prop where
  store : s.remote = S ∨ s.remote = b.ensured S
  noRaise : ∀ i e, s.phase i ≠ .done (some e)
  present : ∀ i, s.phase i ≠ .create → (s.remote.resources b.resourceId).isSome
  returned : ∀ i, s.phase i = .done none → s.remote = b.ensured S

theorem ensureInv_start {S : Store} : EnsureInv b S (.start S : Ensuring Store n) :=
  ⟨.inl rfl, fun _ _ => nofun, fun _ h => absurd rfl h, fun _ => nofun⟩

/-- Moving one thread to a phase that is not a raise keeps every thread from having raised. -/
theorem noRaise_update {phase : Fin n → EnsurePhase} (noRaise : ∀ i e, phase i ≠ .done (some e))
    (i : Fin n) {p : EnsurePhase} (hp : ∀ e, p ≠ .done (some e)) :
    ∀ j e, Function.update phase i p j ≠ .done (some e) := fun j e => by
  by_cases same : j = i
  · subst same
    rw [Function.update_same]
    exact hp e
  · rw [Function.update_noteq same]
    exact noRaise j e

section Invariant

variable {S : Store} (typed : b.TypedAt S)
include typed

/-- Once the store is what one call leaves, only a raise could break the invariant. -/
theorem ensureInv_of_ensured {s : Ensuring Store n} (remote : s.remote = b.ensured S)
    (noRaise : ∀ i e, s.phase i ≠ .done (some e)) : EnsureInv b S s := by
  obtain ⟨r, found, -⟩ := EnsureCall.holds_ensured typed
  exact ⟨.inr remote, noRaise, fun _ _ => by simp [remote, found], fun _ _ => remote⟩

/-- The step lemma: every step of every thread keeps the invariant. -/
theorem EnsureInv.step (backend : d.gnocchi = Store.apply) {s s' : Ensuring Store n} {i : Fin n}
    (inv : EnsureInv b S s) (h : d.ensureStep b.resourceType b.resource b.metricName s i = some s') :
    EnsureInv b S s' := by
  have once : b.ensured s.remote = b.ensured S ∧ b.TypedAt s.remote := by
    rcases inv.store with same | same <;> rw [same]
    · exact ⟨rfl, typed⟩
    · exact ⟨EnsureCall.ensured_ensured typed, EnsureCall.typedAt_ensured typed⟩
  rcases d.ensureStep_cases _ _ _ h with ⟨hp, rfl⟩ | ⟨next, at_, rfl⟩
  · rw [backend, EnsureCall.createResource_store]
    by_cases present : (s.remote.resources b.resourceId).isSome
    · rw [if_pos present]
      refine ⟨inv.store, noRaise_update inv.noRaise i (by simp [EnsurePhase.afterCreate]),
        fun _ _ => present, fun j done => inv.returned j ?_⟩
      by_cases same : j = i
      · subst same
        simp [EnsurePhase.afterCreate] at done
      · simpa [Function.update_noteq same] using done
    · rw [if_neg present]
      exact ensureInv_of_ensured typed once.1 (noRaise_update inv.noRaise i (by simp [EnsurePhase.afterCreate]))
  · have present := inv.present i (by rcases at_ with ⟨hp, -⟩ | ⟨hp, -⟩ <;> rw [hp] <;> decide)
    obtain ⟨answered, remote⟩ := metricBlock_store backend present once.2
    refine ensureInv_of_ensured typed (remote.trans once.1) (noRaise_update inv.noRaise i fun e => ?_)
    rw [EnsurePhase.afterMetric, answered]
    rcases at_ with ⟨-, rfl⟩ | ⟨-, rfl⟩ <;> simp

/-- The run lemma: the invariant holds at every state a schedule reaches. -/
theorem EnsureReachable.ensureInv (backend : d.gnocchi = Store.apply) {s : Ensuring Store n}
    (reach : d.EnsureReachable b.resourceType b.resource b.metricName (.start S) s) : EnsureInv b S s := by
  induction reach with
  | init => exact ensureInv_start
  | step _ _ h inv => exact inv.step typed backend h

end Invariant

/-- Any number of threads calling `_ensure_resource_and_metric` without memcache, with one
body that lists the meter, against the store: whatever the schedule, the store only ever
holds what it held or what one call leaves, no thread raises, and every thread takes at most
three steps; a schedule that no thread can extend ends with every thread returned and the
store as one call leaves it. -/
theorem concurrent_ensure_once (backend : d.gnocchi = Store.apply) (b : EnsureCall) {S : Store}
    (typed : b.TypedAt S) {sched : List (Fin n)} {s : Ensuring Store n}
    (run : d.ensureRun b.resourceType b.resource b.metricName (.start S) sched = some s) :
    (s.remote = S ∨ s.remote = b.ensured S) ∧ (∀ i e, s.phase i ≠ .done (some e)) ∧
      sched.length ≤ 3 * n ∧
      ((∀ i, d.ensureStep b.resourceType b.resource b.metricName s i = none) →
        ∀ i, s.phase i = .done none ∧ s.remote = b.ensured S) := by
  obtain ⟨reach, bound⟩ := d.ensureRun_spec _ _ _ .init run
  have inv := reach.ensureInv typed backend
  rw [Ensuring.pending_start] at bound
  refine ⟨inv.store, inv.noRaise, by omega, fun stuck i => ?_⟩
  cases hp : s.phase i with
  | done r =>
    cases r with
    | none => exact ⟨rfl, inv.returned i hp⟩
    | some e => exact absurd hp (inv.noRaise i e)
  | _ =>
    have step := d.ensureStep_isSome b.resourceType b.resource b.metricName (s := s) (i := i)
      (by intro r; rw [hp]; exact nofun)
    rw [stuck i] at step
    cases step

/-- The body `_process_resource` builds for a `cpu` sample of `r1` under `cpuDefinition`. -/
def cpuEnsure : EnsureCall where
  resourceType := "instance"
  resourceId := "r1"
  metricName := "cpu"
  resource := resourceDict "r1" cpuDefinition ⟨"r1", "cpu", .none, .none, .int 1, .int 10, []⟩ []
  metrics := cpuDefinition.metrics
  archivePolicy := .dict []
  id := by decide
  hasMetrics := by decide
  listed := by decide

/-- Two threads ensure `r1`'s `cpu` metric on an empty store: thread 0 creates the resource,
thread 1's `create_resource` raises `ResourceAlreadyExists`, and every `create_metric` block
then finds the metric. -/
theorem concurrent_ensure_once_two :
    let sched : List (Fin 2) := [0, 1, 1, 0, 1]
    ∃ s, cpuDispatcher.ensureRun "instance" cpuEnsure.resource "cpu" (.start Store.empty) sched = some s ∧
      (s.remote = Store.empty ∨ s.remote = cpuEnsure.ensured Store.empty) ∧
      (∀ i e, s.phase i ≠ .done (some e)) ∧ sched.length ≤ 3 * 2 ∧
      ((∀ i, cpuDispatcher.ensureStep "instance" cpuEnsure.resource "cpu" s i = none) →
        ∀ i, s.phase i = .done none ∧ s.remote = cpuEnsure.ensured Store.empty) := by
  intro sched
  have ran : (cpuDispatcher.ensureRun "instance" cpuEnsure.resource "cpu" (.start Store.empty) sched).isSome =
      true := by decide
  obtain ⟨s, run⟩ := Option.isSome_iff_exists.mp ran
  exact ⟨s, run, concurrent_ensure_once rfl cpuEnsure (fun _ h => by cases h) run⟩

end GnocchiDispatcher

/-! ### With memcache -/

/-- Where leaving the double-checked block takes a thread: on to the second `create_metric`
block when it left without raising (the cache hit, or `create_resource` returned and the
hash was cached), to the handler on `ResourceAlreadyExists`, out with any other
exception. -/
def EnsurePhase.afterBlock : Option PyExc → EnsurePhase
  | none => .metric
  | some e => .afterCreate (.error e)

/-- Threads in `_ensure_resource_and_metric` with memcache: each first runs the double-checked
block around `create_resource`, as in `Threads`, and once it has left the block goes on at
`after`, with the `create_metric` blocks. -/
structure CachedEnsuring (σ τ : Type) (n : Nat) where
  threads : Threads σ τ n
  after : Fin n → EnsurePhase

namespace CachedEnsuring

variable {σ τ : Type} {n : Nat}

/-- Every thread at the first `_check_resource_cache`. -/
def start (remote : σ) (cache : τ) : CachedEnsuring σ τ n := ⟨.start remote cache, fun _ => .create⟩

/-- The rank of a thread: in the block, the block's rank and the two `create_metric` blocks
after it; past the block, the rank of where it is. -/
def rank (s : CachedEnsuring σ τ n) (i : Fin n) : Nat :=
  if (s.threads.phase i).left then (s.after i).rank else (s.threads.phase i).rank + 2

/-- The steps the threads have left, at most. -/
def pending (s : CachedEnsuring σ τ n) : Nat := ∑ i, s.rank i

theorem pending_start (remote : σ) (cache : τ) : (start remote cache : CachedEnsuring σ τ n).pending = 7 * n := by
  simp [pending, rank, start, Threads.start, Phase.left, Phase.rank, mul_comm]

theorem rank_of_left {s : CachedEnsuring σ τ n} {i : Fin n} (left : (s.threads.phase i).left = true) :
    s.rank i = (s.after i).rank := by
  simp [rank, left]

theorem rank_of_block {s : CachedEnsuring σ τ n} {i : Fin n} (inBlock : (s.threads.phase i).left = false) :
    s.rank i = (s.threads.phase i).rank + 2 := by
  simp [rank, inBlock]

end CachedEnsuring

namespace GnocchiDispatcher

variable {σ τ : Type} {n : Nat} (d : GnocchiDispatcher σ τ) (c : CacheClient τ) (gs : Fin n → Guard)
  (rt : String) (resource : Dict) (m : String)

/-- One atomic step of thread `i` with memcache: a step of the block, which on leaving it sets
where the thread goes on, or, past the block, a step of `ensureStep`. -/
def cachedStep (s : CachedEnsuring σ τ n) (i : Fin n) : Option (CachedEnsuring σ τ n) :=
  if (s.threads.phase i).left then
    (d.ensureStep rt resource m ⟨s.threads.remote, s.after⟩ i).map fun e =>
      ⟨{ s.threads with remote := e.remote }, e.phase⟩
  else
    (d.guardStep c gs s.threads i).map fun t =>
      ⟨t, match t.phase i with
        | .done r => Function.update s.after i (.afterBlock r)
        | _ => s.after⟩

/-- The steps of a schedule, in order; `none` if a thread of it cannot step. -/
def cachedRun : CachedEnsuring σ τ n → List (Fin n) → Option (CachedEnsuring σ τ n)
  | s, [] => some s
  | s, i :: rest => (d.cachedStep c gs rt resource m s i).bind (cachedRun · rest)

/-- The states that some schedule reaches from `start`. -/
inductive CachedReachable (start : CachedEnsuring σ τ n) : CachedEnsuring σ τ n → Prop
  | init : CachedReachable start start
  | step {s s' : CachedEnsuring σ τ n} (i : Fin n) :
      CachedReachable start s → d.cachedStep c gs rt resource m s i = some s' → CachedReachable start s'

/-- What a step can do. -/
theorem cachedStep_cases {s s' : CachedEnsuring σ τ n} {i : Fin n}
    (h : d.cachedStep c gs rt resource m s i = some s') :
    ((s.threads.phase i).left = true ∧ ∃ e, d.ensureStep rt resource m ⟨s.threads.remote, s.after⟩ i = some e ∧
        s' = ⟨{ s.threads with remote := e.remote }, e.phase⟩) ∨
      ((s.threads.phase i).left = false ∧ ∃ t, d.guardStep c gs s.threads i = some t ∧
        s' = ⟨t, match t.phase i with
          | .done r => Function.update s.after i (.afterBlock r)
          | _ => s.after⟩) := by
  unfold cachedStep at h
  split at h
  · obtain ⟨e, step, rfl⟩ := Option.map_eq_some'.mp h
    exact .inl ⟨‹_›, e, step, rfl⟩
  · obtain ⟨t, step, rfl⟩ := Option.map_eq_some'.mp h
    exact .inr ⟨Bool.eq_false_iff.mpr ‹_›, t, step, rfl⟩

/-- Each step lowers the stepping thread's rank and leaves every other thread's. -/
theorem cachedStep_pending {s s' : CachedEnsuring σ τ n} {i : Fin n}
    (h : d.cachedStep c gs rt resource m s i = some s') : s'.pending < s.pending := by
  have moved : s'.rank i < s.rank i ∧ ∀ j ≠ i, s'.rank j = s.rank j := by
    rcases d.cachedStep_cases c gs rt resource m h with ⟨left, e, step, rfl⟩ | ⟨inBlock, t, step, rfl⟩
    · obtain ⟨lower, others⟩ := d.ensureStep_moves rt resource m step
      refine ⟨by simpa [CachedEnsuring.rank, left] using lower, fun j other => ?_⟩
      simp only [CachedEnsuring.rank, others j other]
    · obtain ⟨lower, others⟩ := d.guardStep_moves c gs step
      refine ⟨?_, fun j other => ?_⟩
      · rw [CachedEnsuring.rank_of_block inBlock]
        have positive : 1 ≤ (s.threads.phase i).rank := by
          cases hs : s.threads.phase i <;> simp_all [Phase.left, Phase.rank]
        cases hp : t.phase i with
        | done r =>
          rw [CachedEnsuring.rank_of_left (by simp [hp, Phase.left])]
          simp only [hp, Function.update_same]
          have afterBlock : (EnsurePhase.afterBlock r).rank ≤ 2 := by
            cases r
            · decide
            · exact EnsurePhase.rank_afterCreate (.error _)
          omega
        | _ =>
          rw [CachedEnsuring.rank_of_block (by simp [hp, Phase.left])]
          rw [hp] at lower ⊢
          omega
      · cases hp : t.phase i <;> simp [CachedEnsuring.rank, others j other, Function.update_noteq other]
  refine Finset.sum_lt_sum (fun j _ => ?_) ⟨i, Finset.mem_univ _, moved.1⟩
  by_cases same : j = i
  · exact same ▸ moved.1.le
  · rw [moved.2 j same]

/-- The run lemma: a schedule is no longer than the steps the threads had left, and ends at
a reachable state. -/
theorem cachedRun_spec {start : CachedEnsuring σ τ n} :
    ∀ {s s' : CachedEnsuring σ τ n} {sched : List (Fin n)},
      d.CachedReachable c gs rt resource m start s → d.cachedRun c gs rt resource m s sched = some s' →
      d.CachedReachable c gs rt resource m start s' ∧ sched.length + s'.pending ≤ s.pending
  | s, s', [], reach, run => by cases run; simpa using reach
  | s, s', i :: rest, reach, run => by
    simp only [cachedRun] at run
    cases h : d.cachedStep c gs rt resource m s i with
    | none => simp [h] at run
    | some s₁ =>
      rw [h, Option.some_bind] at run
      have later := cachedRun_spec (reach.step i h) run
      have lower := d.cachedStep_pending c gs rt resource m h
      exact ⟨later.1, by simp only [List.length_cons]; omega⟩

/-- Where no thread can step, every thread has left the block and the method: the holder of a
lock can always step, and so can a thread past the block that has not returned. -/
theorem cachedStep_stuck {s : CachedEnsuring σ τ n} (stuck : ∀ i, d.cachedStep c gs rt resource m s i = none)
    (i : Fin n) : (s.threads.phase i).left = true ∧ ∃ r, s.after i = .done r := by
  have left : ∀ j, (s.threads.phase j).left = true := by
    rcases d.guardStep_progress c gs s.threads with left | ⟨j, t, step⟩
    · exact left
    · have inBlock : (s.threads.phase j).left = false := by
        cases hp : s.threads.phase j with
        | done r => simp [guardStep, hp] at step
        | _ => rfl
      have moves := stuck j
      simp [cachedStep, inBlock, step] at moves
  refine ⟨left i, ?_⟩
  cases ha : s.after i with
  | done r => exact ⟨r, rfl⟩
  | _ =>
    have moves := d.ensureStep_isSome rt resource m (s := ⟨s.threads.remote, s.after⟩) (i := i)
      (by intro r; simp [ha])
    have none := stuck i
    simp only [cachedStep, left i, if_true, Option.map_eq_none'] at none
    rw [none] at moves
    cases moves

end GnocchiDispatcher

/-- The double-checked block of thread `g` guards the `create_resource` of the call's body. -/
def EnsureCall.Guards (b : EnsureCall) (g : Guard) : Prop :=
  g.resourceId = b.resourceId ∧ g.resource = b.resource ∧ g.call = .createResource b.resourceType b.resource

namespace GnocchiDispatcher

variable {τ : Type} {n : Nat} {d : GnocchiDispatcher Store τ} {c : CacheClient τ} {gs : Fin n → Guard}
  {b : EnsureCall}

/-- Along a schedule with memcache from `S`: the store is `S` or what one call leaves; a thread
past the block goes on to a `create_metric` block or has returned; a thread at `cache.set`
or past the block has seen the resource stored; memcache holds the body's hash under the
resource's key only once the resource is stored; and once a thread has returned, the store
is what one call leaves. -/
structure CachedInv (d : GnocchiDispatcher Store τ) (c : CacheClient τ) (b : EnsureCall) (S : Store)
    (s : CachedEnsuring Store τ n) : Prop where
  store : s.threads.remote = S ∨ s.threads.remote = b.ensured S
  past : ∀ i, (s.threads.phase i).left = true →
    s.after i = .handler ∨ s.after i = .metric ∨ s.after i = .done none
  present : ∀ i, s.threads.phase i = .setting ∨ (s.threads.phase i).left = true →
    (s.threads.remote.resources b.resourceId).isSome
  cached : c.get (d.cacheKeyMangler b.resourceId) s.threads.cache = some (d.hash (b.resource.delItem "metrics")) →
    (s.threads.remote.resources b.resourceId).isSome
  returned : ∀ i, (s.threads.phase i).left = true → s.after i = .done none → s.threads.remote = b.ensured S

/-- A step of thread `i` in the block that keeps the store: it moves `i` to `p`, going on at
`after' i` if `p` leaves the block, and memcache still holds the body's hash only on a
stored resource. -/
theorem CachedInv.moveTo {s : CachedEnsuring Store τ n} (inv : CachedInv d c b S s) {i : Fin n} {p : Phase}
    {t : Threads Store τ n} {after' : Fin n → EnsurePhase} (phase : t.phase = Function.update s.threads.phase i p)
    (remote : t.remote = s.threads.remote)
    (cached : c.get (d.cacheKeyMangler b.resourceId) t.cache = some (d.hash (b.resource.delItem "metrics")) →
      (t.remote.resources b.resourceId).isSome)
    (others : ∀ j ≠ i, after' j = s.after j) (goesOn : p.left = true → after' i = .handler ∨ after' i = .metric)
    (present : p = .setting ∨ p.left = true → (s.threads.remote.resources b.resourceId).isSome) :
    CachedInv d c b S ⟨t, after'⟩ := by
  have at_ : ∀ j, t.phase j = if j = i then p else s.threads.phase j := fun j => by
    rw [phase, Function.update_apply]
  refine ⟨remote ▸ inv.store, fun j left => ?_, fun j hj => remote ▸ ?_, cached, fun j left done => ?_⟩
  · simp only [at_] at left ⊢
    split at left
    · subst j
      exact (goesOn left).elim .inl (.inr ∘ .inl)
    · rw [others j ‹_›]
      exact inv.past j left
  · simp only [at_] at hj
    split at hj
    · exact present hj
    · exact inv.present j hj
  · simp only [at_] at left done ⊢
    split at left
    · subst j
      rcases goesOn left with h | h <;> rw [h] at done <;> cases done
    · rw [remote]
      exact inv.returned j left (others j ‹_› ▸ done)

section CachedInvariant

variable {S : Store} (typed : b.TypedAt S)
include typed

omit typed in
theorem cachedInv_start {cache : τ}
    (fresh : c.get (d.cacheKeyMangler b.resourceId) cache = some (d.hash (b.resource.delItem "metrics")) →
      (S.resources b.resourceId).isSome) :
    CachedInv d c b S (.start S cache : CachedEnsuring Store τ n) :=
  ⟨.inl rfl, fun _ => nofun, fun _ h => h.elim nofun nofun, fresh, fun _ => nofun⟩

/-- Once the store is what one call leaves, only where the threads go on matters. -/
theorem cachedInv_of_ensured {s : CachedEnsuring Store τ n} (remote : s.threads.remote = b.ensured S)
    (past : ∀ i, (s.threads.phase i).left = true →
      s.after i = .handler ∨ s.after i = .metric ∨ s.after i = .done none) : CachedInv d c b S s := by
  obtain ⟨r, found, -⟩ := EnsureCall.holds_ensured typed
  have present : (s.threads.remote.resources b.resourceId).isSome := by simp [remote, found]
  exact ⟨.inr remote, past, fun _ _ => present, fun _ => present, fun _ _ _ => remote⟩

/-- The step lemma with memcache: every step of every thread keeps the invariant, when every
block guards the call's `create_resource`, memcache keeps only what is set, and the body's
hash is not `0`. -/
theorem CachedInv.step (backend : d.gnocchi = Store.apply) (lawful : c.Lawful) (guards : ∀ i, b.Guards (gs i))
    (nonzero : d.hash (b.resource.delItem "metrics") ≠ 0) {s s' : CachedEnsuring Store τ n} {i : Fin n}
    (inv : CachedInv d c b S s) (h : d.cachedStep c gs b.resourceType b.resource b.metricName s i = some s') :
    CachedInv d c b S s' := by
  have once : b.ensured s.threads.remote = b.ensured S ∧ b.TypedAt s.threads.remote := by
    rcases inv.store with same | same <;> rw [same]
    · exact ⟨rfl, typed⟩
    · exact ⟨EnsureCall.ensured_ensured typed, EnsureCall.typedAt_ensured typed⟩
  have key : (gs i).key d = d.cacheKeyMangler b.resourceId := by simp [Guard.key, (guards i).1]
  have hash : (gs i).hash d = d.hash (b.resource.delItem "metrics") := by
    simp [Guard.hash, Guard.body, (guards i).2.1]
  have hit : truthy ((gs i).checked d c s.threads.cache) ≠ true →
      (s.threads.remote.resources b.resourceId).isSome := fun falsy => by
    have held := mt ((gs i).truthy_checked_iff d c s.threads.cache).mpr falsy
    rw [key, hash] at held
    exact inv.cached (Classical.byContradiction fun miss => held ⟨miss, nonzero⟩)
  have others : ∀ j ≠ i, Function.update s.after i EnsurePhase.metric j = s.after j :=
    fun j other => Function.update_noteq other _ _
  rcases d.cachedStep_cases c gs _ _ _ h with ⟨left, e, step, rfl⟩ | ⟨inBlock, t, step, rfl⟩
  · rcases d.ensureStep_cases _ _ _ step with ⟨hp, -⟩ | ⟨next, at_, rfl⟩
    · rcases inv.past i left with h | h | h <;> simp [h] at hp
    obtain ⟨answered, remote⟩ := metricBlock_store backend (inv.present i (.inr left)) once.2
    refine cachedInv_of_ensured typed (remote.trans once.1) fun j left' => ?_
    by_cases same : j = i
    · subst same
      simp only [Function.update_same, EnsurePhase.afterMetric, answered]
      rcases at_ with ⟨-, rfl⟩ | ⟨-, rfl⟩ <;> simp
    · simp only [Function.update_noteq same]
      exact inv.past j left'
  rcases d.guardStep_cases c gs step with ⟨hp, rfl⟩ | ⟨hp, -, rfl⟩ | ⟨hp, rfl⟩ | ⟨hp, rfl⟩ | ⟨hp, rfl⟩
  · by_cases miss : truthy ((gs i).checked d c s.threads.cache) = true
    · simp only [miss, if_true, Threads.moveTo_phase, Function.update_same]
      exact inv.moveTo rfl rfl inv.cached (fun _ _ => rfl) (by simp [Phase.left]) (by simp [Phase.left])
    · simp only [miss, if_false, Threads.moveTo_phase, Function.update_same, EnsurePhase.afterBlock]
      exact inv.moveTo rfl rfl inv.cached others (fun _ => .inr (Function.update_same _ _ _)) fun _ => hit miss
  · simp only [Threads.moveTo_phase, Function.update_same]
    exact inv.moveTo rfl rfl inv.cached (fun _ _ => rfl) (by simp [Phase.left]) (by simp [Phase.left])
  · by_cases miss : truthy ((gs i).checked d c s.threads.cache) = true
    · simp only [miss, if_true, Threads.moveTo_phase, Function.update_same]
      exact inv.moveTo rfl rfl inv.cached (fun _ _ => rfl) (by simp [Phase.left]) (by simp [Phase.left])
    · simp only [miss, if_false, Threads.moveTo_phase, Function.update_same, EnsurePhase.afterBlock]
      exact inv.moveTo rfl rfl inv.cached others (fun _ => .inr (Function.update_same _ _ _)) fun _ => hit miss
  · rw [backend, (guards i).2.2, EnsureCall.createResource_store]
    by_cases present : (s.threads.remote.resources b.resourceId).isSome
    · simp only [present, if_true, Phase.afterCall, Threads.moveTo_phase, Function.update_same,
        EnsurePhase.afterBlock, EnsurePhase.afterCreate]
      exact inv.moveTo rfl rfl inv.cached (fun j other => Function.update_noteq other _ _)
        (fun _ => .inl (Function.update_same _ _ _)) fun _ => present
    · simp only [present, if_false, Phase.afterCall, Threads.moveTo_phase, Function.update_same]
      refine cachedInv_of_ensured typed once.1 fun j left => ?_
      have other : j ≠ i := by rintro rfl; simp [Phase.left] at left
      simp only [Threads.moveTo_phase, Function.update_noteq other] at left ⊢
      exact inv.past j left
  · have stored := inv.present i (.inl hp)
    simp only [Threads.moveTo_phase, Function.update_same, EnsurePhase.afterBlock]
    refine inv.moveTo rfl rfl (fun got => ?_) others (fun _ => .inr (Function.update_same _ _ _)) fun _ => stored
    rcases lawful _ _ _ _ _ _ got with ⟨-, -⟩ | ⟨-, old⟩
    · exact stored
    · exact inv.cached old

/-- The run lemma with memcache: the invariant holds at every state a schedule reaches. -/
theorem CachedReachable.cachedInv (backend : d.gnocchi = Store.apply) (lawful : c.Lawful)
    (guards : ∀ i, b.Guards (gs i)) (nonzero : d.hash (b.resource.delItem "metrics") ≠ 0) {cache : τ}
    (fresh : c.get (d.cacheKeyMangler b.resourceId) cache = some (d.hash (b.resource.delItem "metrics")) →
      (S.resources b.resourceId).isSome) {s : CachedEnsuring Store τ n}
    (reach : d.CachedReachable c gs b.resourceType b.resource b.metricName (.start S cache) s) :
    CachedInv d c b S s := by
  induction reach with
  | init => exact cachedInv_start fresh
  | step _ _ h inv => exact inv.step typed backend lawful guards nonzero h

end CachedInvariant

/-- With memcache, any number of threads, in any number of processes, calling
`_ensure_resource_and_metric` with one body that lists the meter, against the store: when
memcache keeps only what is set and holds the body's hash under the resource's key only if the
resource is stored, and the body's hash is not `0`, whatever the schedule, the store only ever
holds what it held or what one call leaves, no thread raises, and every thread takes at most
seven steps; a schedule that no thread can extend ends with every thread returned and the store
as one call leaves it. -/
theorem cached_concurrent_ensure_once (backend : d.gnocchi = Store.apply) (lawful : c.Lawful) (b : EnsureCall)
    (guards : ∀ i, b.Guards (gs i)) (nonzero : d.hash (b.resource.delItem "metrics") ≠ 0) {S : Store}
    {cache : τ} (typed : b.TypedAt S)
    (fresh : c.get (d.cacheKeyMangler b.resourceId) cache = some (d.hash (b.resource.delItem "metrics")) →
      (S.resources b.resourceId).isSome)
    {sched : List (Fin n)} {s : CachedEnsuring Store τ n}
    (run : d.cachedRun c gs b.resourceType b.resource b.metricName (.start S cache) sched = some s) :
    (s.threads.remote = S ∨ s.threads.remote = b.ensured S) ∧
      (∀ i, (s.threads.phase i).left = true → ∀ e, s.after i ≠ .done (some e)) ∧ sched.length ≤ 7 * n ∧
      ((∀ i, d.cachedStep c gs b.resourceType b.resource b.metricName s i = none) →
        ∀ i, s.after i = .done none ∧ s.threads.remote = b.ensured S) := by
  obtain ⟨reach, bound⟩ := d.cachedRun_spec c gs _ _ _ .init run
  have inv := reach.cachedInv typed backend lawful guards nonzero fresh
  rw [CachedEnsuring.pending_start] at bound
  refine ⟨inv.store, fun i left e done => ?_, by omega, fun stuck i => ?_⟩
  · rcases inv.past i left with h | h | h <;> rw [h] at done <;> cases done
  · obtain ⟨left, r, hr⟩ := d.cachedStep_stuck c gs _ _ _ stuck i
    rcases inv.past i left with h | h | h
    · rw [h] at hr; cases hr
    · rw [h] at hr; cases hr
    · exact ⟨h, inv.returned i left h⟩

/-- The block of a thread of process `lock` around the `create_resource` of `cpuEnsure`. -/
def cpuEnsureGuard (lock : Nat) : Guard :=
  ⟨lock, "r1", cpuEnsure.resource, .createResource "instance" cpuEnsure.resource, cpuEnsure.id, by decide⟩

/-- Two threads in two processes ensure `r1`'s `cpu` metric on an empty store and an empty
memcache: both miss the cache and take their own lock, thread 0 creates the resource and
caches its hash, thread 1's `create_resource` raises `ResourceAlreadyExists`, and every
`create_metric` block finds the metric. -/
theorem cached_concurrent_ensure_once_two :
    let sched : List (Fin 2) := [0, 1, 0, 1, 0, 1, 0, 1, 0, 1, 0, 1]
    let gs : Fin 2 → Guard := fun i => cpuEnsureGuard i
    ∃ s, (cachingDispatcher flavorHash).cachedRun listCache gs "instance" cpuEnsure.resource "cpu"
        (.start Store.empty []) sched = some s ∧
      (s.threads.remote = Store.empty ∨ s.threads.remote = cpuEnsure.ensured Store.empty) ∧
      (∀ i, (s.threads.phase i).left = true → ∀ e, s.after i ≠ .done (some e)) ∧ sched.length ≤ 7 * 2 ∧
      ((∀ i, (cachingDispatcher flavorHash).cachedStep listCache gs "instance" cpuEnsure.resource "cpu" s i = none) →
        ∀ i, s.after i = .done none ∧ s.threads.remote = cpuEnsure.ensured Store.empty) := by
  intro sched gs
  have ran : ((cachingDispatcher flavorHash).cachedRun listCache gs "instance" cpuEnsure.resource "cpu"
      (.start Store.empty []) sched).isSome = true := by decide
  obtain ⟨s, run⟩ := Option.isSome_iff_exists.mp ran
  exact ⟨s, run, cached_concurrent_ensure_once rfl listCache_lawful cpuEnsure (fun _ => ⟨rfl, rfl, rfl⟩)
    (by decide) (fun _ h => by cases h) (fun h => by cases h) run⟩

/-- A body whose hash is `0` reads as a cache hit: the thread skips `create_resource`, and
`create_metric` raises `UnexpectedError` on the missing resource. -/
example : (((cachingDispatcher fun _ => 0).cachedRun listCache (fun _ : Fin 1 => cpuEnsureGuard 0) "instance"
    cpuEnsure.resource "cpu" (.start Store.empty []) [0, 0]).map (·.after 0)) =
      some (.done (some .unexpectedError)) := by
  decide

end GnocchiDispatcher

end Ceilometer.Dispatcher
