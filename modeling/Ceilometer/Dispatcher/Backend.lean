import Ceilometer.Dispatcher.CacheRefinement

/-!
# What a batch does to the Gnocchi store

`record_metering_data` exists to fill Gnocchi: every measure of a handled sample is to
end up in the metric named after its meter, of the resource named by its
`resource_id`. This module runs the dispatcher without memcache against a `Store`
backend and states what a whole batch does to the store's contents, seen through
`Store.measuresAt`, the measures held under each resource and metric.

## Main results

- `record_appends_measures`: the batch returns, and every metric of every resource then
  holds the measures it held, followed by the measures of the kept samples of that
  resource and meter, in input order, when a definition handles the meter; no other
  measure is added, lost or duplicated. The first `post_measure` of a new resource or
  metric fails with `NoSuchMetric`, and `_ensure_resource_and_metric` creates what is
  missing before the second one succeeds.
- `record_stores_latest_attributes`: every resource with a handled kept sample then
  exists, with its type, and holds every attribute the definitions extract from its
  kept samples with the value the last of them gives, in the batch's sorted order.
- `split_batches_store_alike`: two batches recorded one after the other leave the same
  measures in the store as the two recorded as one batch.
- `record_leaves_other_resources`: a resource that no kept sample names is left as it was.
- `run_keeps_latest_attributes`: over a run of batches, every attribute outside `id`,
  `user_id` and `project_id` ends with the value the last kept sample to give one gives,
  and one that no sample gives keeps its value: the last writer wins, across batches.
- `cached_run_appends_measures`: with a memcache that keeps what is set, and attribute
  hashes that tell apart bodies with different items, a run of batches stores exactly what the batches' kept,
  handled samples measure, as without the cache.

The hypotheses are the code's own preconditions: every metric pattern compiles (`fnmatch`
raises `re.error` otherwise), a handled meter is literally one of its definition's patterns (`resource['metrics'][metric_name]` raises `KeyError` otherwise), no
definition names an attribute `id` or `metrics` (which would overwrite the body's own),
the resources of one id have one type, in the store and in the batch (`create_metric`
raises `UnexpectedError` on a resource of another type), and keystone is a service of
its own, which `tenants.find` does not write to Gnocchi.

## Proof strategy

One spec lemma per function of the record path, each from the ones below it: the
backend's answer to each call the dispatcher makes, then `_ensure_resource_and_metric`
(which leaves every measure as it was), the `post_measure` block, the loop over a
resource's metric groups, the reconciliation, `_process_resource`, and the loop over
the resources. The batch's sorted groups are then related to the kept samples by
`pairGroups_measures`, and the resource groups to the samples of one resource by
`resource_group_eq`. Across a resource's metric groups, `AttributesSince` says which
attributes may have changed: only those gathered so far, the created body holding nothing
else outside `ownKeys`.
-/

namespace Ceilometer.Dispatcher

namespace Store

/-- The measures the store holds for metric `m` of resource `rid`: none when the resource
or the metric is missing. -/
def measuresAt (store : Store) (rid m : String) : List Measure :=
  match (store.resources rid).bind fun r => r.metrics m with
  | some metric => metric.measures
  | none => []

/-- Every stored resource has the type that `types` gives its id. -/
def Typed (types : String → String) (store : Store) : Prop :=
  ∀ rid r, store.resources rid = some r → r.resourceType = types rid

theorem typed_empty (types : String → String) : empty.Typed types := fun _ _ h => by cases h

variable {store : Store} {rid : String} {r : StoredResource}

theorem measuresAt_setMetric (found : store.resources rid = some r) (m : String)
    (metric : StoredMetric) (rid' m' : String) :
    (store.set rid (r.setMetric m metric)).measuresAt rid' m' =
      if rid' = rid ∧ m' = m then metric.measures else store.measuresAt rid' m' := by
  by_cases same : rid' = rid
  · subst same
    by_cases hm : m' = m <;> simp [measuresAt, found, StoredResource.setMetric, hm]
  · simp [measuresAt, same]

/-- A created resource holds no measure yet. -/
theorem measuresAt_created (absent : store.resources rid = none) (rt : String)
    (attributes : String → Option Value) (metrics : Dict) (rid' m : String) :
    (store.set rid ⟨rt, attributes, createdMetrics metrics⟩).measuresAt rid' m = store.measuresAt rid' m := by
  by_cases same : rid' = rid
  · subst same
    cases policy : Dict.get? metrics m <;> simp [measuresAt, absent, createdMetrics, policy]
  · simp [measuresAt, same]

theorem measuresAt_of_resources {store' : Store} (same : store'.resources rid = store.resources rid)
    (m : String) : store'.measuresAt rid m = store.measuresAt rid m := by
  simp [measuresAt, same]

theorem measuresAt_of_missing {m : String} (missing : ((store.resources rid).bind fun r => r.metrics m) = none) :
    store.measuresAt rid m = [] := by
  simp [measuresAt, missing]

theorem Typed.set {types : String → String} (typed : store.Typed types) {r : StoredResource}
    (rt : r.resourceType = types rid) : (store.set rid r).Typed types := by
  intro rid' r' found
  by_cases same : rid' = rid
  · subst same
    simp only [set_resources, if_true, Option.some.injEq] at found
    exact found ▸ rt
  · simp only [set_resources, same, if_false] at found
    exact typed rid' r' found

/-! ### The backend's answers -/

theorem find_eq_some {rt : String} (found : store.resources rid = some r) (typed : r.resourceType = rt) :
    store.find rt rid = some r := by
  simp [find, found, Option.filter, typed]

theorem apply_postMeasure_found {rt m : String} {metric : StoredMetric}
    (found : store.resources rid = some r) (typed : r.resourceType = rt) (has : r.metrics m = some metric)
    (measures : List Measure) :
    apply (.postMeasure rt rid m measures) store =
      (.ok (), store.set rid (r.setMetric m { metric with measures := metric.measures ++ measures })) := by
  simp [apply, find_eq_some found typed, has]

theorem apply_postMeasure_missing {rt m : String}
    (missing : ((store.resources rid).bind fun r => r.metrics m) = none) (measures : List Measure) :
    apply (.postMeasure rt rid m measures) store = (.error .noSuchMetric, store) := by
  simp only [apply, find]
  cases found : store.resources rid with
  | none => rfl
  | some r =>
    rw [found, Option.some_bind] at missing
    by_cases same : r.resourceType = rt <;> simp [Option.filter, same, missing]

theorem apply_createResource_present {rt : String} {resource : Dict}
    (id : resource.get? "id" = some (.str rid)) (present : (store.resources rid).isSome) :
    apply (.createResource rt resource) store = (.error .resourceAlreadyExists, store) := by
  simp [apply, id, present]

theorem apply_createResource_absent {rt : String} {resource metrics : Dict}
    (id : resource.get? "id" = some (.str rid)) (hasMetrics : resource.get? "metrics" = some (.dict metrics))
    (absent : store.resources rid = none) :
    apply (.createResource rt resource) store =
      (.ok (), store.set rid ⟨rt, (resource.delItem "metrics").get?, createdMetrics metrics⟩) := by
  simp [apply, id, absent, created, hasMetrics]

theorem apply_createMetric_new {rt m : String} {p : Value} (found : store.resources rid = some r)
    (typed : r.resourceType = rt) (missing : r.metrics m = none) :
    apply (.createMetric rt (.str rid) m p) store = (.ok (), store.set rid (r.setMetric m ⟨p, []⟩)) := by
  simp [apply, find_eq_some found typed, missing]

theorem apply_createMetric_present {rt m : String} {p : Value} (found : store.resources rid = some r)
    (typed : r.resourceType = rt) (has : (r.metrics m).isSome) :
    apply (.createMetric rt (.str rid) m p) store = (.error .metricAlreadyExists, store) := by
  simp [apply, find_eq_some found typed, has]

theorem apply_updateResource_found {rt : String} {extra : Dict} (found : store.resources rid = some r)
    (typed : r.resourceType = rt) :
    apply (.updateResource rt rid extra) store =
      (.ok (), store.set rid { r with attributes := fun k => (Dict.get? extra.reverse k).or (r.attributes k) }) := by
  simp [apply, find_eq_some found typed]

/-- Setting a resource's attributes keeps every measure. -/
theorem measuresAt_setAttributes (found : store.resources rid = some r) (attributes : String → Option Value)
    (rid' m : String) : (store.set rid { r with attributes }).measuresAt rid' m = store.measuresAt rid' m := by
  by_cases same : rid' = rid
  · subst same
    simp [measuresAt, found]
  · simp [measuresAt, same]

/-- A metric holding a measure belongs to a stored resource. -/
theorem isSome_of_measuresAt {m : String} (held : store.measuresAt rid m ≠ []) :
    (store.resources rid).isSome := by
  cases found : store.resources rid with
  | none => simp [measuresAt, found] at held
  | some r => rfl

/-- The value the store holds for attribute `k` of resource `rid`: none when the resource is
missing. -/
def attributeAt (store : Store) (rid k : String) : Option Value :=
  (store.resources rid).bind fun r => r.attributes k

theorem attributeAt_set (r : StoredResource) (rid' k : String) :
    (store.set rid r).attributeAt rid' k = if rid' = rid then r.attributes k else store.attributeAt rid' k := by
  by_cases same : rid' = rid <;> simp [attributeAt, same]

theorem attributeAt_of_resources {store' : Store} (same : store'.resources rid = store.resources rid)
    (k : String) : store'.attributeAt rid k = store.attributeAt rid k := by
  simp [attributeAt, same]

/-- Setting a metric keeps every attribute. -/
theorem attributeAt_setMetric (found : store.resources rid = some r) (m : String) (metric : StoredMetric)
    (rid' k : String) : (store.set rid (r.setMetric m metric)).attributeAt rid' k = store.attributeAt rid' k := by
  rw [attributeAt_set]
  split
  · subst rid'
    simp [attributeAt, found, StoredResource.setMetric]
  · rfl

end Store

/-! ### The body of a metric group -/

/-- An attributes dict that sets neither the body's `id` nor its `metrics`. -/
def Unshadowed (extra : Dict) : Prop :=
  ∀ kv ∈ extra, kv.1 ≠ "id" ∧ kv.1 ≠ "metrics"

theorem Unshadowed.update {extra e : Dict} (hExtra : Unshadowed extra) (hE : Unshadowed e) :
    Unshadowed (extra.update e) := fun kv member => (Dict.mem_update member).elim (hExtra kv) (hE kv)

section Body

variable {rid : String} {rd : ResourcesDefinition} {first : Sample} {extra : Dict}
  (unshadowed : Unshadowed extra)
include unshadowed

theorem resourceDict_id_of_unshadowed : (resourceDict rid rd first extra).get? "id" = some (.str rid) := by
  simp [resourceDict, Dict.get?_eq_none fun kv h => (unshadowed kv (List.mem_reverse.mp h)).1]

theorem resourceDict_metrics_of_unshadowed :
    (resourceDict rid rd first extra).get? "metrics" = some (.dict rd.metrics) := by
  simp [resourceDict, Dict.get?_eq_none fun kv h => (unshadowed kv (List.mem_reverse.mp h)).2]

/-- A resource created from the body holds, outside `ownKeys`, the gathered attributes. -/
theorem resourceDict_attribute_of_unshadowed (nodup : (extra.map Prod.fst).Nodup) {k : String}
    (hk : k ∉ ownKeys) : ((resourceDict rid rd first extra).delItem "metrics").get? k = extra.get? k := by
  have named : "id" ≠ k ∧ "user_id" ≠ k ∧ "project_id" ≠ k := by
    simp only [ownKeys, List.mem_cons, List.mem_singleton, List.not_mem_nil, or_false, not_or] at hk
    exact ⟨Ne.symm hk.1, Ne.symm hk.2.1, Ne.symm hk.2.2⟩
  by_cases metrics : "metrics" = k
  · subst metrics
    simp [Dict.get?_eq_none fun kv h => (unshadowed kv h).2]
  · simp [resourceDict, metrics, named.1, named.2.1, named.2.2, Dict.get?_reverse nodup]

end Body

/-- `attributes(sample)` builds a dict, whose keys are distinct. -/
theorem ResourcesDefinition.nodup_attributes (rd : ResourcesDefinition) (s : Sample) :
    ((rd.attributes s).map Prod.fst).Nodup := by
  suffices from_acc : ∀ (defs : List (String × (Sample → Value))) (acc : Dict), (acc.map Prod.fst).Nodup →
      ((defs.foldl (fun attrs d => if d.2 s ≠ .none then attrs.setItem d.1 (d.2 s) else attrs) acc).map
        Prod.fst).Nodup from from_acc _ [] List.nodup_nil
  intro defs
  induction defs with
  | nil => exact fun _ h => h
  | cons a defs ih =>
    intro acc nodup
    refine ih _ ?_
    dsimp only
    split
    · exact Dict.nodup_setItem nodup _ _
    · exact nodup

namespace GnocchiDispatcher

variable {σ τ : Type} (d : GnocchiDispatcher σ τ)

/-- No definition names an attribute `id` or `metrics`, which would overwrite the body's
own keys. -/
def NamesApart : Prop :=
  ∀ rd ∈ d.resourcesDefinition, ∀ a ∈ rd.attributeDefs, a.1 ≠ "id" ∧ a.1 ≠ "metrics"

theorem unshadowed_attributes {d : GnocchiDispatcher σ τ} (names : d.NamesApart) {metricName : String}
    {rd : ResourcesDefinition} (handled : d.handledBy metricName = some rd) (s : Sample) :
    Unshadowed (rd.attributes s) := fun kv member => by
  obtain ⟨a, ha, same⟩ := ResourcesDefinition.mem_attributes member
  exact same ▸ names rd (d.mem_of_handledBy handled) a ha

/-- The value that the last of `samples` to extract attribute `k` gives it, through the
definition handling its meter: an independent statement of what `resource_extra.update`
leaves, read backwards. -/
def lastAttribute (samples : List Sample) (k : String) : Option Value :=
  samples.reverse.findSome? fun s => (d.handledBy s.counterName).bind fun rd => (rd.attributes s).get? k

theorem lastAttribute_append (first second : List Sample) (k : String) :
    d.lastAttribute (first ++ second) k = (d.lastAttribute second k).or (d.lastAttribute first k) := by
  simp [lastAttribute, List.reverse_append, List.findSome?_append]

theorem lastAttribute_of_unhandled {samples : List Sample} {m : String} (unhandled : d.handledBy m = none)
    (ofMeter : ∀ s ∈ samples, s.counterName = m) (k : String) : d.lastAttribute samples k = none := by
  refine List.findSome?_eq_none_iff.mpr fun s member => ?_
  rw [ofMeter s (List.mem_reverse.mp member), unhandled, Option.none_bind]

/-- The attributes gathered over a metric group are the reference's, over the group. -/
theorem get?_gather {samples : List Sample} {m : String} {rd : ResourcesDefinition}
    (handled : d.handledBy m = some rd) (ofMeter : ∀ s ∈ samples, s.counterName = m) (extra : Dict)
    (k : String) : (gather rd extra samples).get? k = (d.lastAttribute samples k).or (extra.get? k) := by
  induction samples generalizing extra with
  | nil => simp [gather, lastAttribute]
  | cons s rest ih =>
    have own : d.lastAttribute [s] k = (rd.attributes s).get? k := by
      cases value : (rd.attributes s).get? k <;>
        simp [lastAttribute, List.findSome?, ofMeter s (List.mem_cons_self _ _), handled, value]
    rw [gather, List.foldl_cons, ← gather, ih (fun t ht => ofMeter t (List.mem_cons_of_mem _ ht)),
      Dict.get?_update, Dict.get?_reverse (rd.nodup_attributes s), ← own, ← Option.or_assoc,
      ← lastAttribute_append]
    rfl

end GnocchiDispatcher

/-- Processing resource `rid` changed only the store, and of the store only that resource,
keeping every resource of its type. -/
structure OnlyAt {τ : Type} (types : String → String) (rid : String) (w w' : World Store τ) : Prop where
  projectId : w'.gnocchiProjectId = w.gnocchiProjectId
  typed : w'.remote.Typed types
  others : ∀ rid', rid' ≠ rid → w'.remote.resources rid' = w.remote.resources rid'

theorem OnlyAt.trans {τ : Type} {types : String → String} {rid : String} {w₁ w₂ w₃ : World Store τ}
    (first : OnlyAt types rid w₁ w₂) (second : OnlyAt types rid w₂ w₃) : OnlyAt types rid w₁ w₃ :=
  ⟨second.projectId.trans first.projectId, second.typed,
    fun rid' other => (second.others rid' other).trans (first.others rid' other)⟩

theorem onlyAt_refl {τ : Type} {types : String → String} {w : World Store τ} (typed : w.remote.Typed types)
    (rid : String) : OnlyAt types rid w w :=
  ⟨rfl, typed, fun _ _ => rfl⟩

/-- A step that sets resource `rid` to one of its type, and keeps the project id. -/
theorem onlyAt_set {τ : Type} {types : String → String} {rid : String} {w w' : World Store τ}
    {r : StoredResource} (typed : w.remote.Typed types) (projectId : w'.gnocchiProjectId = w.gnocchiProjectId)
    (remote : w'.remote = w.remote.set rid r) (rtype : r.resourceType = types rid) :
    OnlyAt types rid w w' :=
  ⟨projectId, remote ▸ typed.set rtype, fun rid' other => by simp [remote, other]⟩

/-- The accumulator of `_process_resource`'s loop, against the store: the gathered attributes
are unshadowed, with distinct keys; none are gathered before a body is remembered; and a
remembered body is of `rid`'s type, which then exists in the store. -/
structure AccStored (types : String → String) (rid : String) (store : Store)
    (acc : GnocchiDispatcher.ResourceAcc) : Prop where
  unshadowed : Unshadowed acc.resourceExtra
  nodup : (acc.resourceExtra.map Prod.fst).Nodup
  bound : acc.last = none → acc.resourceExtra = []
  last : ∀ rt resource, acc.last = some (rt, resource) → rt = types rid ∧ (store.resources rid).isSome

theorem accStored_init (types : String → String) (rid : String) (store : Store) :
    AccStored types rid store ⟨[], none⟩ :=
  ⟨fun _ h => absurd h (List.not_mem_nil _), List.nodup_nil, fun _ => rfl, fun _ _ h => by cases h⟩

/-- From `store` to `store'`, while `_process_resource` works on `rid` and has gathered
`extra`: the resource, once stored, stays, and an attribute outside `ownKeys` that `extra`
does not set is as it was. -/
structure AttributesSince (rid : String) (store store' : Store) (extra : Dict) : Prop where
  kept : (store.resources rid).isSome → (store'.resources rid).isSome
  attributes : ∀ k, k ∉ ownKeys → extra.get? k = none → store'.attributeAt rid k = store.attributeAt rid k

theorem attributesSince_refl (rid : String) (store : Store) (extra : Dict) :
    AttributesSince rid store store extra :=
  ⟨id, fun _ _ _ => rfl⟩

/-- Two stretches of the loop compose, the later one having gathered at least as much. -/
theorem AttributesSince.trans {rid : String} {s₁ s₂ s₃ : Store} {e₁ e₂ : Dict}
    (first : AttributesSince rid s₁ s₂ e₁) (second : AttributesSince rid s₂ s₃ e₂)
    (grows : ∀ k, e₂.get? k = none → e₁.get? k = none) : AttributesSince rid s₁ s₃ e₂ :=
  ⟨second.kept ∘ first.kept, fun k hk absent =>
    (second.attributes k hk absent).trans (first.attributes k hk (grows k absent))⟩

theorem Unshadowed.gather {extra : Dict} (unshadowed : Unshadowed extra) {rd : ResourcesDefinition}
    (attrs : ∀ s, Unshadowed (rd.attributes s)) :
    ∀ samples, Unshadowed (GnocchiDispatcher.gather rd extra samples)
  | [] => unshadowed
  | s :: samples => Unshadowed.gather (unshadowed.update (attrs s)) attrs samples

theorem nodup_gather {extra : Dict} (nodup : (extra.map Prod.fst).Nodup) (rd : ResourcesDefinition) :
    ∀ samples, ((GnocchiDispatcher.gather rd extra samples).map Prod.fst).Nodup
  | [] => nodup
  | s :: samples => nodup_gather (Dict.nodup_update nodup (rd.attributes s)) rd samples

/-- The metric groups of resource `x`, keyed by their pair: those of another resource hold
none of `(rid, m)`'s measures. -/
theorem measures_of_resource (x : String) (groups : List (String × List Sample)) (rid m : String) :
    (((groups.map fun g => ((x, g.1), g.2)).filter fun g => g.1 = (rid, m)).flatMap
        fun g => g.2.map measureOf) =
      if rid = x then (groups.filter fun g => g.1 = m).flatMap (fun g => g.2.map measureOf) else [] := by
  rw [List.filter_map, List.flatMap_map]
  by_cases same : rid = x
  · subst same
    simp [Function.comp_def]
  · rw [if_neg same, List.filter_eq_nil_iff.mpr fun g _ key => same (by simp at key; exact key.1.symm)]
    rfl

/-- The metric groups of a batch hold, for each pair, exactly the batch's samples of that
pair, in input order. -/
theorem pairGroups_measures (kept : List Sample) (q : String × String) :
    (((pairGroups kept).filter fun g => g.1 = q).flatMap fun g => g.2.map measureOf) =
      (kept.filter fun s => pairOf s = q).map measureOf := by
  rw [pairGroups_eq, List.filter_map, List.flatMap_map]
  have nodup : (sortBy pairLe (kept.map pairOf).dedup).Nodup :=
    (perm_sortBy pairLe _).nodup_iff.mpr (List.nodup_dedup _)
  have keyed : (sortBy pairLe (kept.map pairOf).dedup).filter
      ((fun g => decide (g.1 = q)) ∘ fun p => (p, kept.filter fun s => pairOf s = p)) =
      (sortBy pairLe (kept.map pairOf).dedup).filter (· = q) := rfl
  rw [keyed]
  by_cases present : q ∈ sortBy pairLe (kept.map pairOf).dedup
  · rw [List.filter_eq]
    simp [List.count_eq_one_of_mem nodup present]
  · have absent : (sortBy pairLe (kept.map pairOf).dedup).filter (· = q) = [] :=
      List.filter_eq_nil_iff.mpr fun p member same => present (of_decide_eq_true same ▸ member)
    rw [absent]
    have none : kept.filter (fun s => pairOf s = q) = [] := List.filter_eq_nil_iff.mpr fun s member same =>
      present ((perm_sortBy pairLe _).mem_iff.mpr (List.mem_dedup.mpr
        (List.mem_map.mpr ⟨s, member, of_decide_eq_true same⟩)))
    simp [none]

namespace GnocchiDispatcher

theorem metricArchivePolicy_listed {resource metrics : Dict} {m : String} {p : Value}
    (hasMetrics : resource.get? "metrics" = some (.dict metrics)) (listed : metrics.get? m = some p) :
    metricArchivePolicy resource m = .ok p := by
  simp [metricArchivePolicy, Dict.getItem, hasMetrics, listed]

section Keystone

variable {τ : Type} {d : GnocchiDispatcher Store τ}
  (keystone : ∀ name store, (d.tenantsFind name store).2 = store)
include keystone

/-- With a keystone that leaves Gnocchi's store alone, the project-id lookup keeps it. -/
theorem gnocchiProjectId_store {w w' : World Store τ} {pid : String}
    (found : d.gnocchiProjectId w = .ok pid w') : w'.remote = w.remote := by
  have kept := keystone d.filterProject w.remote
  simp only [gnocchiProjectId] at found
  cases known : w.gnocchiProjectId with
  | some p => simp only [known] at found; cases found; rfl
  | none =>
    cases answer : d.tenantsFind d.filterProject w.remote with
    | mk result remote =>
      rw [answer] at kept
      cases result <;> simp only [known, answer] at found <;> cases found
      exact kept

/-- The activity filter keeps the store, and leaves the project id known, unless there was
nothing to filter. -/
theorem dropGnocchiActivity_store (compiles : d.Compiles) {w : World Store τ} {pid : String}
    (resolves : d.filterServiceActivity = true → ∃ w₁, d.gnocchiProjectId w = .ok pid w₁) (data : List Sample) :
    ∃ w₁, d.dropGnocchiActivity data w = .ok (data.filter fun s => !d.isGnocchiActivityOf pid s) w₁ ∧
      w₁.remote = w.remote ∧
      (d.filterServiceActivity = true → w₁.gnocchiProjectId = some pid ∨ data = [] ∧ w₁ = w) := by
  cases filtering : d.filterServiceActivity
  · exact ⟨w, by simp [dropGnocchiActivity_of_off d filtering, isGnocchiActivityOf, filtering], rfl,
      fun h => by cases h⟩
  · obtain ⟨w₁, found⟩ := resolves filtering
    cases data with
    | nil => exact ⟨w, rfl, rfl, fun _ => .inr ⟨rfl, rfl⟩⟩
    | cons s data =>
      have known := (gnocchiProjectId_ok d found).1
      refine ⟨w₁, ?_, gnocchiProjectId_store keystone found, fun _ => .inl known⟩
      rw [dropGnocchiActivity_cons d filtering, found]
      exact d.dropGnocchiActivity_of_known known fun t _ => d.activityAt_of_compiles compiles pid t

end Keystone

section Stored

variable {τ : Type} {d : GnocchiDispatcher Store τ} (backend : d.gnocchi = Store.apply)
include backend

theorem gnocchiCall_ok {c : Call} {w : World Store τ} {store : Store}
    (answer : Store.apply c w.remote = (.ok (), store)) :
    d.gnocchiCall c w = .ok () { w with remote := store, calls := w.calls ++ [c] } := by
  simp [gnocchiCall, backend, answer]

theorem gnocchiCall_error {c : Call} {w : World Store τ} {e : PyExc} {store : Store}
    (answer : Store.apply c w.remote = (.error e, store)) :
    d.gnocchiCall c w = .error e { w with remote := store, calls := w.calls ++ [c] } := by
  simp [gnocchiCall, backend, answer]

/-! ### `_ensure_resource_and_metric` -/

section Ensure

variable {rt m rid : String} {resource : Dict} {p : Value} {w : World Store τ} {r : StoredResource}
  (policy : metricArchivePolicy resource m = .ok p) (id : resource.get? "id" = some (.str rid))
include policy id

/-- The `create_metric` block on a resource of its type that lacks the metric makes it. -/
theorem createMetric_new (found : w.remote.resources rid = some r) (typed : r.resourceType = rt)
    (missing : r.metrics m = none) :
    d.createMetric rt resource m w = .ok () { w with
      remote := w.remote.set rid (r.setMetric m ⟨p, []⟩),
      calls := w.calls ++ [.createMetric rt (.str rid) m p] } := by
  have idItem : resource.getItem "id" = .ok (.str rid) := (Dict.getItem_eq_ok _ _ _).mpr id
  simp only [createMetric, tryCatch_apply, bind_apply, policy, idItem, liftExcept, pure_apply,
    gnocchiCall_ok backend (Store.apply_createMetric_new found typed missing)]

/-- On a resource that has the metric, the block ignores `MetricAlreadyExists`. -/
theorem createMetric_present (found : w.remote.resources rid = some r) (typed : r.resourceType = rt)
    (has : (r.metrics m).isSome) :
    d.createMetric rt resource m w = .ok () { w with calls := w.calls ++ [.createMetric rt (.str rid) m p] } := by
  have idItem : resource.getItem "id" = .ok (.str rid) := (Dict.getItem_eq_ok _ _ _).mpr id
  simp only [createMetric, tryCatch_apply, bind_apply, policy, idItem, liftExcept, pure_apply,
    gnocchiCall_error backend (Store.apply_createMetric_present found typed has)]
  rfl

end Ensure

/-- `_ensure_resource_and_metric`, without memcache, for a resource that lacks the metric,
from a body that names the resource and lists the metric: it returns, the resource then
exists, of its type, with the metric and no measure in it, and no measure of the store
has changed. -/
theorem ensureResourceAndMetric_store (uncached : d.cache = none) {types : String → String}
    {rt m rid : String} {resource metrics : Dict} {p : Value} {w : World Store τ}
    (id : resource.get? "id" = some (.str rid)) (hasMetrics : resource.get? "metrics" = some (.dict metrics))
    (listed : metrics.get? m = some p) (typed : w.remote.Typed types) (rtype : rt = types rid)
    (missing : ((w.remote.resources rid).bind fun r => r.metrics m) = none) :
    ∃ w', d.ensureResourceAndMetric rt resource m w = .ok () w' ∧ OnlyAt types rid w w' ∧
      (∀ rid' m', w'.remote.measuresAt rid' m' = w.remote.measuresAt rid' m') ∧
      (∀ k, w'.remote.attributeAt rid k =
        if (w.remote.resources rid).isSome then w.remote.attributeAt rid k else (resource.delItem "metrics").get? k) ∧
      ∃ r', w'.remote.resources rid = some r' ∧ r'.resourceType = rt ∧ ∃ p', r'.metrics m = some ⟨p', []⟩ := by
  have policy := metricArchivePolicy_listed hasMetrics listed
  simp only [ensureResourceAndMetric, bind_apply, tryCatch_apply, createResource, uncached]
  cases found : w.remote.resources rid with
  | some r =>
    have rtype' : r.resourceType = rt := (typed rid r found).trans rtype.symm
    have lacks : r.metrics m = none := by simpa [found] using missing
    rw [gnocchiCall_error backend (Store.apply_createResource_present id (by simp [found]))]
    dsimp only
    rw [if_pos rfl, createMetric_new backend policy id
      (w := { w with calls := w.calls ++ [.createResource rt resource] }) found rtype' lacks]
    dsimp only
    rw [createMetric_present backend policy id (r := r.setMetric m ⟨p, []⟩) (by simp) rtype'
      (by simp [StoredResource.setMetric])]
    refine ⟨_, rfl, onlyAt_set typed rfl rfl (rtype'.trans rtype), fun rid' m' => ?_,
      fun k => by simp [Store.attributeAt_setMetric found, found], r.setMetric m ⟨p, []⟩, by simp, rtype', p,
      by simp [StoredResource.setMetric]⟩
    rw [Store.measuresAt_setMetric found]
    split
    · obtain ⟨rfl, rfl⟩ := ‹rid' = rid ∧ m' = m›
      simp [Store.measuresAt, missing]
    · rfl
  | none =>
    rw [gnocchiCall_ok backend (Store.apply_createResource_absent id hasMetrics found)]
    dsimp only
    rw [createMetric_present backend policy id (r := ⟨rt, (resource.delItem "metrics").get?, Store.createdMetrics metrics⟩) (by simp)
      (show StoredResource.resourceType ⟨rt, _, Store.createdMetrics metrics⟩ = rt from rfl)
      (by simp [Store.createdMetrics, listed])]
    exact ⟨_, rfl, onlyAt_set typed rfl rfl rtype,
      Store.measuresAt_created found rt _ metrics, fun k => by simp [Store.attributeAt_set, found],
      ⟨rt, (resource.delItem "metrics").get?, Store.createdMetrics metrics⟩, by simp, rfl, p,
      by simp [Store.createdMetrics, listed]⟩

/-- The `post_measure` block of `_process_resource`, without memcache, from a body that names
the resource and lists the metric: it returns, the resource then exists, and the metric
holds its measures followed by `measures`; no other measure changes. When the metric is
missing, the first `post_measure` raises `NoSuchMetric`, `_ensure_resource_and_metric`
makes the metric, and the second `post_measure` appends. -/
theorem postMeasure_store (uncached : d.cache = none) {types : String → String}
    {rt m rid : String} {resource metrics : Dict} {p : Value} {w : World Store τ}
    (id : resource.get? "id" = some (.str rid)) (hasMetrics : resource.get? "metrics" = some (.dict metrics))
    (listed : metrics.get? m = some p) (typed : w.remote.Typed types) (rtype : rt = types rid)
    (measures : List Measure) :
    ∃ w', d.postMeasure rt rid m measures resource w = .ok () w' ∧ OnlyAt types rid w w' ∧
      (w'.remote.resources rid).isSome ∧
      (∀ k, w'.remote.attributeAt rid k =
        if (w.remote.resources rid).isSome then w.remote.attributeAt rid k else (resource.delItem "metrics").get? k) ∧
      ∀ m', w'.remote.measuresAt rid m' = w.remote.measuresAt rid m' ++ if m' = m then measures else [] := by
  simp only [postMeasure, tryCatch_apply]
  cases hm : (w.remote.resources rid).bind fun r => r.metrics m with
  | some metric =>
    obtain ⟨r, found, has⟩ := Option.bind_eq_some.mp hm
    have rtype' : r.resourceType = rt := (typed rid r found).trans rtype.symm
    rw [gnocchiCall_ok backend (Store.apply_postMeasure_found found rtype' has measures)]
    refine ⟨_, rfl, onlyAt_set typed rfl rfl (rtype'.trans rtype), by simp,
      fun k => by simp [Store.attributeAt_setMetric found, found], fun m' => ?_⟩
    rw [Store.measuresAt_setMetric found]
    by_cases same : m' = m
    · subst same
      simp [Store.measuresAt, found, has]
    · simp [same]
  | none =>
    rw [gnocchiCall_error backend (Store.apply_postMeasure_missing hm measures)]
    dsimp only
    rw [if_pos rfl, bind_apply]
    obtain ⟨w₁, ensured, only, unchanged, attributes, r, found, rtype', p', has⟩ :=
      ensureResourceAndMetric_store backend uncached (w := { w with calls := w.calls ++ [.postMeasure rt rid m measures] })
        id hasMetrics listed typed rtype hm
    rw [ensured]
    dsimp only
    rw [tryCatch_apply, gnocchiCall_ok backend (Store.apply_postMeasure_found found rtype' has measures)]
    refine ⟨_, rfl, ?_, by simp, fun k => (Store.attributeAt_setMetric found _ _ rid k).trans (attributes k),
      fun m' => ?_⟩
    · refine OnlyAt.trans ?_ (only.trans ?_)
      · exact ⟨rfl, typed, fun _ _ => rfl⟩
      · exact onlyAt_set only.typed rfl rfl (rtype'.trans rtype)
    rw [Store.measuresAt_setMetric found, unchanged]
    by_cases same : m' = m
    · subst same
      simp [Store.measuresAt_of_missing hm]
    · simp [same]

/-! ### A resource -/

/-- One metric group of resource `rid`, against the store: an unhandled one changes nothing;
a handled one appends its measures to its metric, gathers its samples' attributes, and
leaves the resource in the store. -/
theorem processMetric_store (uncached : d.cache = none) (names : d.NamesApart) (compiles : d.Compiles)
    {types : String → String}
    {rid m : String} {samples : List Sample} {acc : ResourceAcc} {w : World Store τ}
    (ofMeter : ∀ s ∈ samples, s.counterName = m)
    (storable : ∀ rd, d.handledBy m = some rd →
      samples ≠ [] ∧ m ∈ rd.metricPatterns ∧ rd.resourceType = types rid)
    (typed : w.remote.Typed types) (hacc : AccStored types rid w.remote acc) :
    ∃ acc' w', d.processMetric rid acc m samples w = .ok acc' w' ∧ OnlyAt types rid w w' ∧
      AccStored types rid w'.remote acc' ∧
      (∀ k, acc'.resourceExtra.get? k = (d.lastAttribute samples k).or (acc.resourceExtra.get? k)) ∧
      AttributesSince rid w.remote w'.remote acc'.resourceExtra ∧
      ∀ m', w'.remote.measuresAt rid m' = w.remote.measuresAt rid m' ++
        if m' = m ∧ (d.handledBy m).isSome then samples.map measureOf else [] := by
  cases handled : d.handledBy m with
  | none =>
    rw [processMetric_unhandled d (d.getResourceDefinition_of_compiles compiles m) handled]
    refine ⟨acc, w, rfl, onlyAt_refl typed rid, hacc, fun k => ?_, attributesSince_refl _ _ _, fun m' => by simp⟩
    rw [d.lastAttribute_of_unhandled handled ofMeter, Option.none_or]
  | some rd =>
    obtain ⟨nonempty, literal, rtype⟩ := storable rd handled
    obtain ⟨first, rest, rfl⟩ := List.exists_cons_of_ne_nil nonempty
    have unshadowed : Unshadowed (gather rd acc.resourceExtra (first :: rest)) :=
      hacc.unshadowed.gather (unshadowed_attributes names handled) _
    obtain ⟨p, listed⟩ := get?_metrics literal
    obtain ⟨w', posted, only, present, attributes, measures⟩ := postMeasure_store backend uncached
      (resourceDict_id_of_unshadowed unshadowed : (resourceDict rid rd first _).get? "id" = _)
      (resourceDict_metrics_of_unshadowed unshadowed) listed typed rtype ((first :: rest).map measureOf)
    have since : AttributesSince rid w.remote w'.remote (gather rd acc.resourceExtra (first :: rest)) :=
      ⟨fun _ => present, fun k hk absent => by
        rw [attributes k]
        split
        · rfl
        · next missing =>
          rw [resourceDict_attribute_of_unshadowed unshadowed (nodup_gather hacc.nodup rd _) hk, absent,
            Store.attributeAt, Option.not_isSome_iff_eq_none.mp missing, Option.none_bind]⟩
    rw [processMetric_handled d handled]
    refine ⟨_, w', by rw [bind_apply, posted]; rfl, only,
      ⟨unshadowed, nodup_gather hacc.nodup rd _, (fun h => by cases h), fun rt resource h => ?_⟩,
      fun k => d.get?_gather handled ofMeter _ k, since, fun m' => by simp [measures]⟩
    cases h
    exact ⟨rtype, present⟩

/-- What the loop needs of the metric groups of resource `rid`: each group's samples are of
its meter; a handled group is non-empty, its meter is one of its definition's patterns,
and its definition's type is the resource's. -/
def StorableGroups (types : String → String) (rid : String) (groups : List (String × List Sample)) :
    Prop :=
  ∀ g ∈ groups, (∀ s ∈ g.2, s.counterName = g.1) ∧
    ∀ rd, d.handledBy g.1 = some rd → g.2 ≠ [] ∧ g.1 ∈ rd.metricPatterns ∧ rd.resourceType = types rid

/-- The loop of `_process_resource` over the metric groups of resource `rid`: every handled
group's measures are appended to its metric, and the attributes gathered are the
reference's over the groups' samples. -/
theorem processMetrics_store (uncached : d.cache = none) (names : d.NamesApart) (compiles : d.Compiles)
    {types : String → String} {rid : String} :
    ∀ (groups : List (String × List Sample)) (acc : ResourceAcc) (w : World Store τ),
      d.StorableGroups types rid groups → w.remote.Typed types → AccStored types rid w.remote acc →
      ∃ acc' w', d.processMetrics rid acc groups w = .ok acc' w' ∧ OnlyAt types rid w w' ∧
        AccStored types rid w'.remote acc' ∧
        (∀ k, acc'.resourceExtra.get? k =
          (d.lastAttribute (groups.flatMap Prod.snd) k).or (acc.resourceExtra.get? k)) ∧
        AttributesSince rid w.remote w'.remote acc'.resourceExtra ∧
        ∀ m, w'.remote.measuresAt rid m = w.remote.measuresAt rid m ++
          if (d.handledBy m).isSome then (groups.filter fun g => g.1 = m).flatMap fun g => g.2.map measureOf
          else []
  | [], acc, w, _, typed, hacc =>
    ⟨acc, w, rfl, onlyAt_refl typed rid, hacc, fun k => by simp [lastAttribute], attributesSince_refl _ _ _,
      fun m => by simp⟩
  | (m, samples) :: rest, acc, w, storable, typed, hacc => by
    obtain ⟨ofMeter, handledOk⟩ := storable _ (List.mem_cons_self _ _)
    obtain ⟨acc₁, w₁, run₁, only₁, hacc₁, extra₁, since₁, measures₁⟩ :=
      processMetric_store backend uncached names compiles ofMeter handledOk typed hacc
    obtain ⟨acc₂, w₂, run₂, only₂, hacc₂, extra₂, since₂, measures₂⟩ := processMetrics_store uncached names compiles rest
      acc₁ w₁ (fun g member => storable g (List.mem_cons_of_mem _ member)) only₁.typed hacc₁
    refine ⟨acc₂, w₂, by simp only [processMetrics, bind_apply, run₁]; exact run₂, only₁.trans only₂, hacc₂,
      fun k => by rw [extra₂, extra₁, List.flatMap_cons, lastAttribute_append, Option.or_assoc],
      since₁.trans since₂ fun k absent => (Option.or_eq_none.mp ((extra₂ k).symm.trans absent)).2,
      fun m' => ?_⟩
    rw [measures₂, measures₁, List.append_assoc]
    by_cases same : m' = m
    · subst same
      cases d.handledBy m' <;> simp
    · simp [same, Ne.symm same]

/-- The end of `_process_resource`, without memcache: when attributes were gathered,
`update_resource` finds the resource and sets them over the ones it holds; no measure
changes. -/
theorem reconcile_store (uncached : d.cache = none) {types : String → String} {rid : String}
    {acc : ResourceAcc} {w : World Store τ} (typed : w.remote.Typed types)
    (hacc : AccStored types rid w.remote acc) :
    ∃ w', d.reconcile rid acc w = .ok () w' ∧ OnlyAt types rid w w' ∧
      (∀ m, w'.remote.measuresAt rid m = w.remote.measuresAt rid m) ∧
      ∀ k, w'.remote.attributeAt rid k = (acc.resourceExtra.get? k).or (w.remote.attributeAt rid k) := by
  by_cases empty : acc.resourceExtra = []
  · exact ⟨w, by simp [reconcile, empty], onlyAt_refl typed rid, fun _ => rfl, fun k => by simp [empty]⟩
  cases last : acc.last with
  | none => exact absurd (hacc.bound last) empty
  | some body =>
    obtain ⟨rt, resource⟩ := body
    obtain ⟨rtype, present⟩ := hacc.last rt resource last
    obtain ⟨r, found⟩ := Option.isSome_iff_exists.mp present
    have rtype' : r.resourceType = rt := (typed rid r found).trans rtype.symm
    have call : d.reconcile rid acc w = d.gnocchiCall (.updateResource rt rid acc.resourceExtra) w := by
      simp only [reconcile, empty, if_false, last, uncached]
    rw [call, gnocchiCall_ok backend (Store.apply_updateResource_found found rtype')]
    exact ⟨_, rfl, onlyAt_set typed rfl rfl (rtype'.trans rtype),
      Store.measuresAt_setAttributes found _ rid,
      fun k => by simp [Store.attributeAt_set, Store.attributeAt, found, Dict.get?_reverse hacc.nodup]⟩

/-- `_process_resource`, without memcache: it returns, every handled metric group's measures
are appended to its metric, and every attribute the reference gives for the resource's
samples is stored; outside `ownKeys`, an attribute it does not give is as it was. -/
theorem processResource_store (uncached : d.cache = none) (names : d.NamesApart) (compiles : d.Compiles)
    {types : String → String} {rid : String} {groups : List (String × List Sample)} {w : World Store τ}
    (storable : d.StorableGroups types rid groups) (typed : w.remote.Typed types) :
    ∃ w', d.processResource rid groups w = .ok () w' ∧ OnlyAt types rid w w' ∧
      (∀ m, w'.remote.measuresAt rid m = w.remote.measuresAt rid m ++
        if (d.handledBy m).isSome then (groups.filter fun g => g.1 = m).flatMap fun g => g.2.map measureOf
        else []) ∧
      (∀ k v, d.lastAttribute (groups.flatMap Prod.snd) k = some v →
        ∃ r, w'.remote.resources rid = some r ∧ r.attributes k = some v) ∧
      ∀ k, k ∉ ownKeys →
        w'.remote.attributeAt rid k = (d.lastAttribute (groups.flatMap Prod.snd) k).or (w.remote.attributeAt rid k) := by
  obtain ⟨acc, w₁, run₁, only₁, hacc, extra, since, measures₁⟩ :=
    processMetrics_store backend uncached names compiles groups ⟨[], none⟩ w storable typed (accStored_init types rid _)
  obtain ⟨w₂, run₂, only₂, measures₂, attributes⟩ := reconcile_store backend uncached only₁.typed hacc
  have gathered : ∀ k, acc.resourceExtra.get? k = d.lastAttribute (groups.flatMap Prod.snd) k := fun k => by
    rw [extra, Dict.get?_nil, Option.or_none]
  refine ⟨w₂, by simp only [processResource, tryCatch_apply, bind_apply, run₁, run₂], only₁.trans only₂,
    fun m => by rw [measures₂, measures₁], fun k v h => Option.bind_eq_some.mp ?_, fun k hk => ?_⟩
  · rw [← Store.attributeAt, attributes, gathered, h]
    rfl
  · rw [attributes, gathered]
    cases last : d.lastAttribute (groups.flatMap Prod.snd) k with
    | some v => rfl
    | none => exact since.attributes k hk ((gathered k).trans last)

/-! ### A batch -/

/-- The loop of `record_metering_data` over resource groups with distinct ids: each
resource's handled metric groups' measures are appended, a resource of no group is left as
it was, and every resource ends holding the attributes the reference gives for its
samples. -/
theorem processResources_store (uncached : d.cache = none) (names : d.NamesApart) (compiles : d.Compiles)
    {types : String → String} :
    ∀ (resources : List (String × List Sample)) (w : World Store τ), (resources.map Prod.fst).Nodup →
      (∀ x ∈ resources, d.StorableGroups types x.1 (groupby Sample.counterName x.2)) →
      w.remote.Typed types →
      ∃ w', d.processResources resources w = .ok () w' ∧ w'.gnocchiProjectId = w.gnocchiProjectId ∧
        w'.remote.Typed types ∧
        (∀ rid, rid ∉ resources.map Prod.fst → w'.remote.resources rid = w.remote.resources rid) ∧
        (∀ rid m, w'.remote.measuresAt rid m = w.remote.measuresAt rid m ++
          if (d.handledBy m).isSome then
            ((resources.flatMap fun x => (groupby Sample.counterName x.2).map fun g => ((x.1, g.1), g.2)).filter
              fun g => g.1 = (rid, m)).flatMap fun g => g.2.map measureOf
          else []) ∧
        (∀ x ∈ resources, ∀ k v, d.lastAttribute ((groupby Sample.counterName x.2).flatMap Prod.snd) k = some v →
          ∃ r, w'.remote.resources x.1 = some r ∧ r.attributes k = some v) ∧
        ∀ x ∈ resources, ∀ k, k ∉ ownKeys → w'.remote.attributeAt x.1 k =
          (d.lastAttribute ((groupby Sample.counterName x.2).flatMap Prod.snd) k).or (w.remote.attributeAt x.1 k)
  | [], w, _, _, typed =>
    ⟨w, rfl, rfl, typed, fun _ _ => rfl, fun _ _ => by simp, fun _ h => absurd h (List.not_mem_nil _),
      fun _ h => absurd h (List.not_mem_nil _)⟩
  | (rid, samples) :: rest, w, nodup, storable, typed => by
    rw [List.map_cons, List.nodup_cons] at nodup
    obtain ⟨w₁, run₁, only₁, measures₁, attributes₁, latest₁⟩ :=
      processResource_store backend uncached names compiles (storable _ (List.mem_cons_self _ _)) typed
    obtain ⟨w₂, run₂, pid₂, typed₂, untouched, measures₂, attributes₂, latest₂⟩ := processResources_store uncached
      names compiles rest w₁ nodup.2 (fun x member => storable x (List.mem_cons_of_mem _ member)) only₁.typed
    refine ⟨w₂, by simp only [processResources, bind_apply, run₁]; exact run₂, pid₂.trans only₁.projectId,
      typed₂, fun rid' absent => ?_, fun rid' m => ?_, fun x member k v h => ?_, fun x member k hk => ?_⟩
    · rw [List.map_cons, List.mem_cons, not_or] at absent
      rw [untouched rid' absent.2, only₁.others rid' absent.1]
    · rw [measures₂, List.flatMap_cons, List.filter_append, List.flatMap_append, measures_of_resource]
      by_cases same : rid' = rid
      · subst same
        rw [measures₁]
        split <;> simp
      · rw [Store.measuresAt_of_resources (only₁.others rid' same)]
        simp [same]
    · rcases List.mem_cons.mp member with rfl | later
      · obtain ⟨r, found, value⟩ := attributes₁ k v h
        exact ⟨r, (untouched _ nodup.1).trans found, value⟩
      · exact attributes₂ x later k v h
    · rcases List.mem_cons.mp member with rfl | later
      · exact (Store.attributeAt_of_resources (untouched _ nodup.1) k).trans (latest₁ k hk)
      · rw [latest₂ x later k hk, Store.attributeAt_of_resources
          (only₁.others x.1 fun same => nodup.1 (same ▸ List.mem_map_of_mem Prod.fst later)) k]

/-- A batch against the store: it returns, keeps the types and the project id resolving,
appends each kept pair's measures, leaves every resource group's attributes as the
reference gives them, and every other resource as it was. -/
theorem record_store (uncached : d.cache = none) (keystone : ∀ name store, (d.tenantsFind name store).2 = store)
    (names : d.NamesApart) (compiles : d.Compiles) {data : List Sample} {w : World Store τ} {pid : String}
    (resolves : d.filterServiceActivity = true → ∃ w₁, d.gnocchiProjectId w = .ok pid w₁)
    (literal : ∀ s ∈ data, ∀ rd, d.handledBy s.counterName = some rd → s.counterName ∈ rd.metricPatterns)
    {types : String → String}
    (typed : ∀ s ∈ data, ∀ rd, d.handledBy s.counterName = some rd → rd.resourceType = types s.resourceId)
    (stored : w.remote.Typed types) :
    ∃ w', (d.recordMeteringData data).run w = .ok () w' ∧ w'.remote.Typed types ∧
      (d.filterServiceActivity = true → ∃ w₂, d.gnocchiProjectId w' = .ok pid w₂) ∧
      (∀ rid m, w'.remote.measuresAt rid m = w.remote.measuresAt rid m ++
        if (d.handledBy m).isSome then
          ((data.filter fun s => !d.isGnocchiActivityOf pid s).filter fun s => pairOf s = (rid, m)).map measureOf
        else []) ∧
      (∀ x ∈ groupby Sample.resourceId (sortBy sampleKeyLe (data.filter fun s => !d.isGnocchiActivityOf pid s)),
        ∀ k v, d.lastAttribute x.2 k = some v → ∃ r, w'.remote.resources x.1 = some r ∧ r.attributes k = some v) ∧
      (∀ rid, (∀ s ∈ data, s.resourceId = rid → d.isGnocchiActivityOf pid s = true) →
        w'.remote.resources rid = w.remote.resources rid) ∧
      ∀ rid k, k ∉ ownKeys → w'.remote.attributeAt rid k =
        (d.lastAttribute ((sortBy sampleKeyLe (data.filter fun s => !d.isGnocchiActivityOf pid s)).filter
          fun t => t.resourceId = rid) k).or (w.remote.attributeAt rid k) := by
  obtain ⟨w₁, drop, remote₁, pid₁⟩ := dropGnocchiActivity_store keystone compiles resolves data
  have sub : ∀ t ∈ data.filter fun s => !d.isGnocchiActivityOf pid s, t ∈ data :=
    fun t h => (List.mem_filter.mp h).1
  have storable : ∀ x ∈ groupby Sample.resourceId (sortBy sampleKeyLe (data.filter fun s => !d.isGnocchiActivityOf pid s)),
      d.StorableGroups types x.1 (groupby Sample.counterName x.2) := by
    intro x hx g hg
    obtain ⟨nonempty, ofMeter⟩ := groupby_group _ _ g hg
    refine ⟨ofMeter, fun rd handled => ?_⟩
    obtain ⟨t, ht⟩ := List.exists_mem_of_ne_nil _ nonempty
    have tData := sub t (mem_of_resourceGroups hx hg ht)
    rw [← ofMeter t ht] at handled ⊢
    refine ⟨nonempty, literal t tData rd handled, ?_⟩
    rw [typed t tData rd handled, (groupby_group _ _ x hx).2 t (mem_of_mem_groupby _ hg ht)]
  obtain ⟨w', run, pid', typed', untouched, measures, attributes, latest⟩ := processResources_store backend
    uncached names compiles _ w₁ (groupby_keys_sorted _ (sorted_by_resource _)).nodup storable (remote₁ ▸ stored)
  have flat : ∀ x : String × List Sample, (groupby Sample.counterName x.2).flatMap Prod.snd = x.2 :=
    fun x => groupby_flatten _ _
  refine ⟨w', (d.recordMeteringData_run drop).trans run, typed', fun filtering => ?_, fun rid m => ?_,
    fun x hx k v h => attributes x hx k v ((flat x).symm ▸ h), fun rid dropped => ?_, fun rid k hk => ?_⟩
  · rcases pid₁ filtering with known | ⟨rfl, rfl⟩
    · exact ⟨w', gnocchiProjectId_of_known d (pid'.trans known)⟩
    · cases run
      exact resolves filtering
  · rw [measures, remote₁, ← pairGroups_measures]
    rfl
  · rw [untouched rid fun named => ?_, remote₁]
    obtain ⟨s, member, rfl⟩ := (mem_groupby_keys _ _ _).mp named
    obtain ⟨held, keep⟩ := List.mem_filter.mp ((perm_sortBy sampleKeyLe _).subset member)
    simp [dropped s held rfl] at keep
  · by_cases named : rid ∈ (groupby Sample.resourceId
        (sortBy sampleKeyLe (data.filter fun s => !d.isGnocchiActivityOf pid s))).map Prod.fst
    · obtain ⟨x, hx, rfl⟩ := List.mem_map.mp named
      rw [latest x hx k hk, flat, ← resource_group_eq _ hx, remote₁]
    · have none : (sortBy sampleKeyLe (data.filter fun s => !d.isGnocchiActivityOf pid s)).filter
          (fun t => t.resourceId = rid) = [] := List.filter_eq_nil_iff.mpr fun t member same =>
        named ((mem_groupby_keys _ _ _).mpr ⟨t, member, of_decide_eq_true same⟩)
      rw [none, Store.attributeAt_of_resources (untouched rid named) k, remote₁]
      rfl

/-- The run lemma: batch after batch, every call returns, and the store gains the measures of
the kept samples of every batch, in order. -/
theorem recordBatches_store (uncached : d.cache = none)
    (keystone : ∀ name store, (d.tenantsFind name store).2 = store) (names : d.NamesApart)
    (compiles : d.Compiles) {pid : String} {types : String → String} :
    ∀ (batches : List (List Sample)) (w : World Store τ),
      (d.filterServiceActivity = true → ∃ w₁, d.gnocchiProjectId w = .ok pid w₁) →
      (∀ s ∈ batches.flatten, ∀ rd, d.handledBy s.counterName = some rd →
        s.counterName ∈ rd.metricPatterns) →
      (∀ s ∈ batches.flatten, ∀ rd, d.handledBy s.counterName = some rd →
        rd.resourceType = types s.resourceId) →
      w.remote.Typed types →
      (d.recordBatches batches w).1 = batches.map (fun _ => none) ∧
        (∀ rid m, (d.recordBatches batches w).2.remote.measuresAt rid m = w.remote.measuresAt rid m ++
          if (d.handledBy m).isSome then
            ((batches.flatten.filter fun s => !d.isGnocchiActivityOf pid s).filter
              fun s => pairOf s = (rid, m)).map measureOf
          else []) ∧
        ∀ rid k, k ∉ ownKeys → (d.recordBatches batches w).2.remote.attributeAt rid k =
          (d.lastAttribute (batches.flatMap fun data =>
            (sortBy sampleKeyLe (data.filter fun s => !d.isGnocchiActivityOf pid s)).filter
              fun t => t.resourceId = rid) k).or (w.remote.attributeAt rid k)
  | [], w, _, _, _, _ =>
    ⟨rfl, fun rid m => by simp [recordBatches], fun rid k _ => by simp [recordBatches, lastAttribute]⟩
  | data :: batches, w, resolves, literal, typed, stored => by
    have here : ∀ s ∈ data, s ∈ (data :: batches).flatten := fun _ => List.mem_append_left _
    have later : ∀ s ∈ batches.flatten, s ∈ (data :: batches).flatten := fun _ => List.mem_append_right _
    obtain ⟨w₁, run, typed₁, resolves₁, measures₁, -, -, latest₁⟩ := record_store backend uncached keystone
      names compiles resolves (fun s h => literal s (here s h)) (fun s h => typed s (here s h)) stored
    obtain ⟨outs, measures, latest⟩ := recordBatches_store uncached keystone names compiles batches w₁ resolves₁
      (fun s h => literal s (later s h)) (fun s h => typed s (later s h)) typed₁
    simp only [recordBatches, run, raised_ok, final_ok, outs, List.map_cons, true_and]
    refine ⟨fun rid m => ?_, fun rid k hk => ?_⟩
    · rw [measures, measures₁, List.append_assoc, List.flatten_cons]
      split_ifs <;> simp only [List.filter_append, List.map_append, List.append_nil]
    · rw [latest rid k hk, latest₁ rid k hk, List.flatMap_cons, lastAttribute_append, Option.or_assoc]

end Stored

/-! ### A batch against the store -/

section Record

variable {τ : Type} {d : GnocchiDispatcher Store τ} {data : List Sample} (w : World Store τ) (pid : String)
  (types : String → String)

/-- Every measure of a kept, handled sample lands in its resource's metric, after what the
metric held, in input order; nothing else changes. -/
theorem record_appends_measures (backend : d.gnocchi = Store.apply) (uncached : d.cache = none)
    (keystone : ∀ name store, (d.tenantsFind name store).2 = store) (names : d.NamesApart)
    (compiles : d.Compiles) (resolves : d.filterServiceActivity = true → ∃ w₁, d.gnocchiProjectId w = .ok pid w₁)
    (literal : ∀ s ∈ data, ∀ rd, d.handledBy s.counterName = some rd → s.counterName ∈ rd.metricPatterns)
    (typed : ∀ s ∈ data, ∀ rd, d.handledBy s.counterName = some rd → rd.resourceType = types s.resourceId)
    (stored : w.remote.Typed types) :
    ∃ w', (d.recordMeteringData data).run w = .ok () w' ∧
      ∀ rid m, w'.remote.measuresAt rid m = w.remote.measuresAt rid m ++
        if (d.handledBy m).isSome then
          ((data.filter fun s => !d.isGnocchiActivityOf pid s).filter fun s => pairOf s = (rid, m)).map measureOf
        else [] :=
  let ⟨w', run, _, _, measures, _⟩ := record_store backend uncached keystone names compiles resolves literal typed stored
  ⟨w', run, measures⟩

/-- The definition of the runs below: `cpu` samples go to `instance` resources, whose
`flavor` is the one the sample's metadata gives. -/
def cpuDefinition : ResourcesDefinition :=
  ⟨"instance", ["cpu"], [("flavor", fun s => (Dict.get? s.resourceMetadata "flavor").getD .none)], none, false, none⟩

/-- A dispatcher on a store, without service-activity filtering and without memcache. -/
def cpuDispatcher : GnocchiDispatcher Store Unit :=
  ⟨false, "service", [cpuDefinition], Store.apply, fun _ s => (.error .unexpectedError, s), none, id, fun _ => 0⟩

/-- A batch of one meter, handled by `rd`, meets `literal` when the meter is one of `rd`'s
patterns. -/
theorem literal_of_one_meter {meter : String} {rd : ResourcesDefinition} (handled : d.handledBy meter = some rd)
    (listed : meter ∈ rd.metricPatterns) (only : ∀ s ∈ data, s.counterName = meter) :
    ∀ s ∈ data, ∀ rd', d.handledBy s.counterName = some rd' → s.counterName ∈ rd'.metricPatterns :=
  fun s member rd' h => by
    rw [only s member, handled] at h
    cases Option.some.inj h
    rwa [only s member]

/-- A batch of one meter, handled by `rd`, meets `typed` with `rd`'s type. -/
theorem typed_of_one_meter {meter : String} {rd : ResourcesDefinition} (handled : d.handledBy meter = some rd)
    (only : ∀ s ∈ data, s.counterName = meter) :
    ∀ s ∈ data, ∀ rd', d.handledBy s.counterName = some rd' → rd'.resourceType = rd.resourceType :=
  fun s member rd' h => by
    rw [only s member, handled] at h
    cases Option.some.inj h
    rfl

theorem cpuDispatcher_namesApart : cpuDispatcher.NamesApart := by
  unfold NamesApart
  decide

/-- Two `cpu` samples of a new resource: the first `post_measure` fails, the resource is
created, and both measures are stored, in order. -/
theorem record_appends_measures_fresh :
    let a : Sample := ⟨"r1", "cpu", .none, .none, .int 1, .int 10, [("flavor", .str "small")]⟩
    let b : Sample := ⟨"r1", "cpu", .none, .none, .int 2, .int 20, [("flavor", .str "large")]⟩
    ∃ w', (cpuDispatcher.recordMeteringData [a, b]).run ⟨Store.empty, (), none, [], []⟩ = .ok () w' ∧
      w'.remote.measuresAt "r1" "cpu" = [⟨.int 1, .int 10⟩, ⟨.int 2, .int 20⟩] := by
  intro a b
  have cpu : ∀ s ∈ [a, b], s.counterName = "cpu" := by decide
  have handled : cpuDispatcher.handledBy "cpu" = some cpuDefinition := rfl
  obtain ⟨w', run, measures⟩ := record_appends_measures ⟨Store.empty, (), none, [], []⟩ ""
    (fun _ => "instance") rfl rfl (fun _ _ => rfl)
    cpuDispatcher_namesApart (by decide) (fun h => absurd h (by decide)) (literal_of_one_meter handled (by decide) cpu)
    (typed_of_one_meter handled cpu) (Store.typed_empty _)
  exact ⟨w', run, by rw [measures]; decide⟩

/-- Every resource with a kept, handled sample exists, with its type, and holds each
attribute the definitions extract from its kept samples with the value the last of them
gives, in the batch's sorted order. -/
theorem record_stores_latest_attributes (backend : d.gnocchi = Store.apply) (uncached : d.cache = none)
    (keystone : ∀ name store, (d.tenantsFind name store).2 = store) (names : d.NamesApart)
    (compiles : d.Compiles) (resolves : d.filterServiceActivity = true → ∃ w₁, d.gnocchiProjectId w = .ok pid w₁)
    (literal : ∀ s ∈ data, ∀ rd, d.handledBy s.counterName = some rd → s.counterName ∈ rd.metricPatterns)
    (typed : ∀ s ∈ data, ∀ rd, d.handledBy s.counterName = some rd → rd.resourceType = types s.resourceId)
    (stored : w.remote.Typed types) :
    ∃ w', (d.recordMeteringData data).run w = .ok () w' ∧
      ∀ s ∈ data.filter (fun s => !d.isGnocchiActivityOf pid s), (d.handledBy s.counterName).isSome →
        ∃ r, w'.remote.resources s.resourceId = some r ∧ r.resourceType = types s.resourceId ∧
          ∀ k v, d.lastAttribute ((sortBy sampleKeyLe (data.filter fun s => !d.isGnocchiActivityOf pid s)).filter
            fun t => t.resourceId = s.resourceId) k = some v → r.attributes k = some v := by
  obtain ⟨w', run, typed', -, measures, attributes, -⟩ :=
    record_store backend uncached keystone names compiles resolves literal typed stored
  refine ⟨w', run, fun s kept handled => ?_⟩
  have held : w'.remote.measuresAt s.resourceId s.counterName ≠ [] := by
    rw [measures, if_pos handled]
    exact List.ne_nil_of_mem (List.mem_append_right _
      (List.mem_map_of_mem measureOf (List.mem_filter.mpr ⟨kept, by simp [pairOf]⟩)))
  obtain ⟨r, found⟩ := Option.isSome_iff_exists.mp (Store.isSome_of_measuresAt held)
  obtain ⟨x, hx, key, -⟩ :=
    exists_groupby_of_mem Sample.resourceId ((perm_sortBy sampleKeyLe _).mem_iff.mpr kept)
  refine ⟨r, found, typed' _ r found, fun k v last => ?_⟩
  rw [← key, ← resource_group_eq _ hx] at last
  obtain ⟨r', found', stored'⟩ := attributes x hx k v last
  rw [key, found, Option.some.injEq] at found'
  exact found' ▸ stored'

/-- Two `cpu` samples of a new resource: it is created as an `instance`, with the flavor of
the later one. -/
theorem record_stores_latest_attributes_fresh :
    let a : Sample := ⟨"r1", "cpu", .none, .none, .int 1, .int 10, [("flavor", .str "small")]⟩
    let b : Sample := ⟨"r1", "cpu", .none, .none, .int 2, .int 20, [("flavor", .str "large")]⟩
    ∃ w', (cpuDispatcher.recordMeteringData [a, b]).run ⟨Store.empty, (), none, [], []⟩ = .ok () w' ∧
      ∃ r, w'.remote.resources "r1" = some r ∧ r.resourceType = "instance" ∧
        r.attributes "flavor" = some (.str "large") := by
  intro a b
  have cpu : ∀ s ∈ [a, b], s.counterName = "cpu" := by decide
  have handled : cpuDispatcher.handledBy "cpu" = some cpuDefinition := rfl
  obtain ⟨w', run, stored⟩ := record_stores_latest_attributes ⟨Store.empty, (), none, [], []⟩
    "" (fun _ => "instance") rfl rfl (fun _ _ => rfl) cpuDispatcher_namesApart
    (by decide) (fun h => absurd h (by decide)) (literal_of_one_meter handled (by decide) cpu) (typed_of_one_meter handled cpu) (Store.typed_empty _)
  obtain ⟨r, found, rtype, attributes⟩ := stored a (by decide) rfl
  exact ⟨w', run, r, found, rtype, attributes "flavor" (.str "large") (by decide)⟩

/-- Recording two batches one after the other leaves the same measures in the store as
recording them as one batch. -/
theorem split_batches_store_alike {data₁ data₂ : List Sample} (backend : d.gnocchi = Store.apply)
    (uncached : d.cache = none) (keystone : ∀ name store, (d.tenantsFind name store).2 = store)
    (names : d.NamesApart) (compiles : d.Compiles)
    (resolves : d.filterServiceActivity = true → ∃ w₁, d.gnocchiProjectId w = .ok pid w₁)
    (literal : ∀ s ∈ data₁ ++ data₂, ∀ rd, d.handledBy s.counterName = some rd →
      s.counterName ∈ rd.metricPatterns)
    (typed : ∀ s ∈ data₁ ++ data₂, ∀ rd, d.handledBy s.counterName = some rd →
      rd.resourceType = types s.resourceId)
    (stored : w.remote.Typed types) :
    ∃ w₁ w₂ w', (d.recordMeteringData data₁).run w = .ok () w₁ ∧
      (d.recordMeteringData data₂).run w₁ = .ok () w₂ ∧
      (d.recordMeteringData (data₁ ++ data₂)).run w = .ok () w' ∧
      ∀ rid m, w₂.remote.measuresAt rid m = w'.remote.measuresAt rid m := by
  have sub₁ : ∀ s ∈ data₁, s ∈ data₁ ++ data₂ := fun _ => List.mem_append_left _
  have sub₂ : ∀ s ∈ data₂, s ∈ data₁ ++ data₂ := fun _ => List.mem_append_right _
  obtain ⟨w₁, run₁, typed₁, resolves₁, measures₁, -⟩ := record_store backend uncached keystone names
    compiles resolves (fun s h => literal s (sub₁ s h)) (fun s h => typed s (sub₁ s h)) stored
  obtain ⟨w₂, run₂, -, -, measures₂, -⟩ := record_store backend uncached keystone names
    compiles resolves₁ (fun s h => literal s (sub₂ s h)) (fun s h => typed s (sub₂ s h)) typed₁
  obtain ⟨w', run, -, -, measures, -⟩ :=
    record_store backend uncached keystone names compiles resolves literal typed stored
  refine ⟨w₁, w₂, w', run₁, run₂, run, fun rid m => ?_⟩
  rw [measures₂, measures₁, measures, List.append_assoc]
  split_ifs <;> simp only [List.filter_append, List.map_append, List.append_nil]

/-- A `cpu` batch split in two: the second half posts to the resource the first created. -/
theorem split_batches_store_alike_cpu :
    let a : Sample := ⟨"r1", "cpu", .none, .none, .int 1, .int 10, [("flavor", .str "small")]⟩
    let b : Sample := ⟨"r1", "cpu", .none, .none, .int 2, .int 20, [("flavor", .str "large")]⟩
    let w : World Store Unit := ⟨Store.empty, (), none, [], []⟩
    ∃ w₁ w₂ w', (cpuDispatcher.recordMeteringData [a]).run w = .ok () w₁ ∧
      (cpuDispatcher.recordMeteringData [b]).run w₁ = .ok () w₂ ∧
      (cpuDispatcher.recordMeteringData ([a] ++ [b])).run w = .ok () w' ∧
      ∀ rid m, w₂.remote.measuresAt rid m = w'.remote.measuresAt rid m := by
  intro a b w
  have cpu : ∀ s ∈ [a] ++ [b], s.counterName = "cpu" := by decide
  have handled : cpuDispatcher.handledBy "cpu" = some cpuDefinition := rfl
  exact split_batches_store_alike w "" (fun _ => "instance") rfl rfl
    (fun _ _ => rfl) cpuDispatcher_namesApart (by decide) (fun h => absurd h (by decide)) (literal_of_one_meter handled (by decide) cpu)
    (typed_of_one_meter handled cpu) (Store.typed_empty _)

/-- A resource that no kept sample of the batch names is left exactly as it was: the
dispatcher creates, updates and posts to no other resource. -/
theorem record_leaves_other_resources (backend : d.gnocchi = Store.apply) (uncached : d.cache = none)
    (keystone : ∀ name store, (d.tenantsFind name store).2 = store) (names : d.NamesApart)
    (compiles : d.Compiles) (resolves : d.filterServiceActivity = true → ∃ w₁, d.gnocchiProjectId w = .ok pid w₁)
    (literal : ∀ s ∈ data, ∀ rd, d.handledBy s.counterName = some rd → s.counterName ∈ rd.metricPatterns)
    (typed : ∀ s ∈ data, ∀ rd, d.handledBy s.counterName = some rd → rd.resourceType = types s.resourceId)
    (stored : w.remote.Typed types) :
    ∃ w', (d.recordMeteringData data).run w = .ok () w' ∧
      ∀ rid, (∀ s ∈ data, s.resourceId = rid → d.isGnocchiActivityOf pid s = true) →
        w'.remote.resources rid = w.remote.resources rid :=
  let ⟨w', run, _, _, _, _, untouched, _⟩ :=
    record_store backend uncached keystone names compiles resolves literal typed stored
  ⟨w', run, untouched⟩

/-- A batch of `r1` against a store that holds `r2`: `r2` is left as it was. -/
theorem record_leaves_other_resources_r2 :
    let a : Sample := ⟨"r1", "cpu", .none, .none, .int 1, .int 10, [("flavor", .str "small")]⟩
    let w : World Store Unit := ⟨Store.empty.set "r2" ⟨"instance", fun _ => none, fun _ => none⟩, (), none, [], []⟩
    ∃ w', (cpuDispatcher.recordMeteringData [a]).run w = .ok () w' ∧
      w'.remote.resources "r2" = w.remote.resources "r2" := by
  intro a w
  have cpu : ∀ s ∈ [a], s.counterName = "cpu" := by decide
  have handled : cpuDispatcher.handledBy "cpu" = some cpuDefinition := rfl
  have stored : w.remote.Typed fun _ => "instance" := (Store.typed_empty _).set rfl
  obtain ⟨w', run, untouched⟩ := record_leaves_other_resources w "" (fun _ => "instance") rfl rfl
    (fun _ _ => rfl) cpuDispatcher_namesApart (by decide) (fun h => absurd h (by decide))
    (literal_of_one_meter handled (by decide) cpu) (typed_of_one_meter handled cpu) stored
  exact ⟨w', run, untouched "r2" (by decide)⟩

/-- Over a run of batches, every batch returns, and every attribute outside the body's own
keys, of every resource, ends with the value that the last kept sample to give one gives, the
batches taken in order and each in its sorted order; an attribute that no kept sample gives
keeps the value it had. -/
theorem run_keeps_latest_attributes (backend : d.gnocchi = Store.apply) (uncached : d.cache = none)
    (keystone : ∀ name store, (d.tenantsFind name store).2 = store) (names : d.NamesApart)
    (compiles : d.Compiles) (batches : List (List Sample))
    (resolves : d.filterServiceActivity = true → ∃ w₁, d.gnocchiProjectId w = .ok pid w₁)
    (literal : ∀ s ∈ batches.flatten, ∀ rd, d.handledBy s.counterName = some rd →
      s.counterName ∈ rd.metricPatterns)
    (typed : ∀ s ∈ batches.flatten, ∀ rd, d.handledBy s.counterName = some rd →
      rd.resourceType = types s.resourceId)
    (stored : w.remote.Typed types) :
    (d.recordBatches batches w).1 = batches.map (fun _ => none) ∧
      ∀ rid k, k ∉ ownKeys → (d.recordBatches batches w).2.remote.attributeAt rid k =
        (d.lastAttribute (batches.flatMap fun batch =>
          (sortBy sampleKeyLe (batch.filter fun s => !d.isGnocchiActivityOf pid s)).filter
            fun t => t.resourceId = rid) k).or (w.remote.attributeAt rid k) :=
  let ⟨outs, _, latest⟩ := recordBatches_store backend uncached keystone names compiles batches w resolves literal typed stored
  ⟨outs, latest⟩

/-- The flavor the first batch gives survives a second batch whose sample gives none. -/
theorem run_keeps_latest_attributes_unset :
    let a : Sample := ⟨"r1", "cpu", .none, .none, .int 1, .int 10, [("flavor", .str "small")]⟩
    let b : Sample := ⟨"r1", "cpu", .none, .none, .int 2, .int 20, []⟩
    let w : World Store Unit := ⟨Store.empty, (), none, [], []⟩
    (cpuDispatcher.recordBatches [[a], [b]] w).1 = [none, none] ∧
      (cpuDispatcher.recordBatches [[a], [b]] w).2.remote.attributeAt "r1" "flavor" = some (.str "small") := by
  intro a b w
  have cpu : ∀ s ∈ [[a], [b]].flatten, s.counterName = "cpu" := by decide
  have handled : cpuDispatcher.handledBy "cpu" = some cpuDefinition := rfl
  obtain ⟨outs, latest⟩ := run_keeps_latest_attributes w "" (fun _ => "instance") rfl rfl (fun _ _ => rfl)
    cpuDispatcher_namesApart (by decide) [[a], [b]] (fun h => absurd h (by decide))
    (literal_of_one_meter handled (by decide) cpu) (typed_of_one_meter handled cpu) (Store.typed_empty _)
  exact ⟨outs, by rw [latest "r1" "flavor" (by decide)]; decide⟩

/-- With a memcache that keeps what is set and starts empty, attribute hashes that tell apart
bodies with different items, plain batches and no definition naming `user_id` or
`project_id`, every batch of a run returns, and every metric then holds the measures it held
followed by those of the kept, handled samples of all the batches, in order: the cache
changes nothing that is stored. -/
theorem cached_run_appends_measures {c : CacheClient τ} (backend : d.gnocchi = Store.apply)
    (cached : d.cache = some c) (lawful : c.Lawful)
    (keystone : ∀ name store, (d.tenantsFind name store).2 = store) (own : d.OwnAttributes)
    (names : d.NamesApart) (compiles : d.Compiles) (batches : List (List Sample)) (plain : ∀ data ∈ batches, d.PlainBatch data)
    (empty : ∀ key, c.get key w.cache = none) (noCollision : d.NoCollision (d.recordBatches batches w).2.hashed)
    (resolves : d.filterServiceActivity = true → ∃ w₁, d.gnocchiProjectId w = .ok pid w₁)
    (literal : ∀ s ∈ batches.flatten, ∀ rd, d.handledBy s.counterName = some rd →
      s.counterName ∈ rd.metricPatterns)
    (typed : ∀ s ∈ batches.flatten, ∀ rd, d.handledBy s.counterName = some rd →
      rd.resourceType = types s.resourceId)
    (stored : w.remote.Typed types) :
    (d.recordBatches batches w).1 = batches.map (fun _ => none) ∧
      ∀ rid m, (d.recordBatches batches w).2.remote.measuresAt rid m = w.remote.measuresAt rid m ++
        if (d.handledBy m).isSome then
          ((batches.flatten.filter fun s => !d.isGnocchiActivityOf pid s).filter
            fun s => pairOf s = (rid, m)).map measureOf
        else [] := by
  have start : d.Sim c w w :=
    ⟨rfl, rfl, List.Sublist.refl _, rfl, fun key h got => by rw [empty] at got; cases got⟩
  obtain ⟨outs, sim⟩ :=
    recordBatches_sim backend cached lawful own keystone batches plain w w start noCollision
  obtain ⟨outs', measures, -⟩ := recordBatches_store (d := d.uncached) backend rfl keystone names compiles batches w
    resolves literal typed stored
  exact ⟨outs.trans outs', fun rid m => by rw [sim.remote]; exact measures rid m⟩

/-- Two batches through the memcache, whose bodies hash apart: both measures are stored. -/
theorem cached_run_appends_measures_flavor :
    let batches := [[flavorSample 1 (-1)], [flavorSample 2 (-3)]]
    ((cachingDispatcher flavorHash).recordBatches batches emptyWorld).1 = [none, none] ∧
      ((cachingDispatcher flavorHash).recordBatches batches emptyWorld).2.remote.measuresAt "r1" "cpu" =
        [⟨.int 1, .int 10⟩, ⟨.int 2, .int 10⟩] := by
  intro batches
  have cpu : ∀ s ∈ batches.flatten, s.counterName = "cpu" := by decide
  have handled : (cachingDispatcher flavorHash).handledBy "cpu" = some flavorDefinition := rfl
  have noCollision : (cachingDispatcher flavorHash).NoCollision
      ((cachingDispatcher flavorHash).recordBatches batches emptyWorld).2.hashed := by
    unfold NoCollision
    decide
  obtain ⟨outs, measures⟩ := cached_run_appends_measures emptyWorld "" (fun _ => "instance") rfl rfl
    listCache_lawful (fun _ _ => rfl) (by unfold OwnAttributes; decide) (by unfold NamesApart; decide) (by decide)
    batches (by unfold PlainBatch PlainDict; decide) (fun _ => rfl) noCollision
    (fun h => absurd h (by decide)) (literal_of_one_meter handled (by decide) cpu)
    (typed_of_one_meter handled cpu) (Store.typed_empty _)
  exact ⟨outs, by rw [measures]; decide⟩

end Record

end GnocchiDispatcher

end Ceilometer.Dispatcher
