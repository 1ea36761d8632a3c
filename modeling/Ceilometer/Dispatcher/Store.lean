import Ceilometer.Dispatcher.Gnocchi

/-!
# A Gnocchi backend

The Gnocchi API as a store of resources, each with its type, its attributes, and its
metrics with their archive policy and measures. The dispatcher's four calls are
atomic operations on the store (`Store.apply`): `post_measure` appends to an existing
metric or raises `NoSuchMetric`, `create_resource` and `create_metric` report
`ResourceAlreadyExists` and `MetricAlreadyExists`, and an unknown resource, or a
body Gnocchi rejects, is an `UnexpectedError`. The backend is maps from names, so
two stores are equal when they hold the same resources, whatever order the calls
came in.
-/

namespace Ceilometer.Dispatcher

/-- A metric of a stored resource. -/
structure StoredMetric where
  archivePolicy : Value
  measures : List Measure

/-- A resource as Gnocchi stores it; its attributes are the created body without its
`metrics`, with every update applied. -/
structure StoredResource where
  resourceType : String
  attributes : String → Option Value
  metrics : String → Option StoredMetric

/-- The resource with metric `name` replaced. -/
def StoredResource.setMetric (r : StoredResource) (name : String) (m : StoredMetric) :
    StoredResource :=
  { r with metrics := fun k => if k = name then some m else r.metrics k }

/-- The backend: the resources by id. -/
structure Store where
  resources : String → Option StoredResource

namespace Store

def empty : Store := ⟨fun _ => none⟩

/-- Replace (or add) resource `id`. -/
def set (store : Store) (id : String) (r : StoredResource) : Store :=
  ⟨fun k => if k = id then some r else store.resources k⟩

@[simp] theorem set_resources (store : Store) (id k : String) (r : StoredResource) :
    (store.set id r).resources k = if k = id then some r else store.resources k := rfl

/-- The resource `id` of type `resourceType`, if there is one. -/
def find (store : Store) (resourceType id : String) : Option StoredResource :=
  (store.resources id).filter fun r => r.resourceType = resourceType

/-- The metrics of a created resource: every entry of its `metrics` dict, with the
archive policy it names. -/
def createdMetrics (metrics : Dict) (name : String) : Option StoredMetric :=
  (Dict.get? metrics name).map fun archivePolicy => ⟨archivePolicy, []⟩

/-- A resource created from the body `resource`. -/
def created (resourceType : String) (resource : Dict) : Except PyExc StoredResource :=
  match resource.get? "metrics" with
  | some (.dict metrics) =>
    .ok ⟨resourceType, (resource.delItem "metrics").get?, createdMetrics metrics⟩
  | none => .ok ⟨resourceType, resource.get?, fun _ => none⟩
  | some _ => .error .unexpectedError

/-- Gnocchi rejects a body whose `metrics` is not a dict with an `UnexpectedError`. -/
theorem created_error {resourceType : String} {resource : Dict} {e : PyExc}
    (rejected : created resourceType resource = .error e) : e = .unexpectedError := by
  unfold created at rejected
  split at rejected <;> cases rejected
  rfl

/-- How the backend answers a call, atomically. -/
def apply : Call → Store → Except PyExc Unit × Store
  | .postMeasure resourceType resourceId metricName measures, store =>
    match store.find resourceType resourceId with
    | some r =>
      match r.metrics metricName with
      | some m =>
        (.ok (), store.set resourceId (r.setMetric metricName { m with measures := m.measures ++ measures }))
      | none => (.error .noSuchMetric, store)
    | none => (.error .noSuchMetric, store)
  | .createResource resourceType resource, store =>
    match resource.get? "id" with
    | some (.str id) =>
      if (store.resources id).isSome then (.error .resourceAlreadyExists, store) else
      match created resourceType resource with
      | .ok r => (.ok (), store.set id r)
      | .error e => (.error e, store)
    | _ => (.error .unexpectedError, store)
  | .createMetric resourceType (.str resourceId) metricName archivePolicy, store =>
    match store.find resourceType resourceId with
    | some r =>
      if (r.metrics metricName).isSome then (.error .metricAlreadyExists, store) else
      (.ok (), store.set resourceId (r.setMetric metricName ⟨archivePolicy, []⟩))
    | none => (.error .unexpectedError, store)
  | .createMetric _ _ _ _, store => (.error .unexpectedError, store)
  | .updateResource resourceType resourceId resourceExtra, store =>
    match store.find resourceType resourceId with
    | some r =>
      (.ok (), store.set resourceId
        { r with attributes := fun k => (Dict.get? resourceExtra.reverse k).or (r.attributes k) })
    | none => (.error .unexpectedError, store)

/-- A call that fails leaves the backend as it was. -/
theorem apply_error {c : Call} {store : Store} {e : PyExc} {store' : Store}
    (h : apply c store = (.error e, store')) : store' = store := by
  unfold apply at h
  repeat' split at h
  all_goals first | exact (Prod.mk.inj h).2.symm | cases h

/-- Resource `rid` of type `rt` has metric `m`, so that a `post_measure` to it returns. -/
def HasMetric (store : Store) (rt rid m : String) : Prop :=
  ∃ r, store.find rt rid = some r ∧ (r.metrics m).isSome

variable {store : Store} {rt rid m : String}

theorem apply_postMeasure_of_hasMetric (has : store.HasMetric rt rid m) (measures : List Measure) :
    (apply (.postMeasure rt rid m measures) store).1 = .ok () := by
  obtain ⟨r, found, metric⟩ := has
  obtain ⟨x, hx⟩ := Option.isSome_iff_exists.mp metric
  simp [apply, found, hx]

theorem setMetric_keeps (r : StoredResource) (name : String) (x : StoredMetric) (k : String)
    (held : (r.metrics k).isSome) : ((r.setMetric name x).metrics k).isSome := by
  simp only [StoredResource.setMetric]
  split <;> simp [held]

/-- Replacing a found resource by one of the same type with at least its metrics keeps
every metric. -/
theorem HasMetric.set_found (has : store.HasMetric rt rid m) {rt' id : String} {r₀ r' : StoredResource}
    (found : store.find rt' id = some r₀) (type : r'.resourceType = r₀.resourceType)
    (grows : ∀ k, (r₀.metrics k).isSome → (r'.metrics k).isSome) :
    (store.set id r').HasMetric rt rid m := by
  obtain ⟨r, held, metric⟩ := has
  by_cases same : rid = id
  · subst same
    obtain ⟨stored, typed⟩ := Option.filter_eq_some.mp held
    obtain rfl : r = r₀ := Option.some.inj (stored.symm.trans (Option.filter_eq_some.mp found).1)
    exact ⟨r', by simpa [find, type] using typed, grows m metric⟩
  · exact ⟨r, by simp only [find, set_resources, if_neg same]; exact held, metric⟩

/-- Adding a resource under a new id keeps every metric. -/
theorem HasMetric.set_new (has : store.HasMetric rt rid m) {id : String} {r' : StoredResource}
    (absent : ¬(store.resources id).isSome) : (store.set id r').HasMetric rt rid m := by
  obtain ⟨r, held, metric⟩ := has
  have other : rid ≠ id := by
    rintro rfl
    exact absent (by rw [(Option.filter_eq_some.mp held).1]; rfl)
  exact ⟨r, by simp only [find, set_resources, if_neg other]; exact held, metric⟩

/-- No call removes a resource, changes its type or drops one of its metrics. -/
theorem apply_keeps_hasMetric (has : store.HasMetric rt rid m) (c : Call) :
    (apply c store).2.HasMetric rt rid m := by
  unfold apply
  repeat' split
  all_goals first
    | exact has
    | exact has.set_found (by assumption) (by rfl) (setMetric_keeps _ _ _)
    | exact has.set_found (by assumption) (by rfl) (by exact fun _ held => held)
    | exact has.set_new (by assumption)

end Store

/-! ### Ensuring a resource and its metric -/

/-- `_ensure_resource_and_metric` looks the archive policy up as
`resource['metrics'][metric_name]`, but `rd.metrics()` is keyed by the definition's
patterns: for a meter that a wildcard pattern matches, the lookup raises `KeyError`
after the resource was created, and the metric is never created. -/
theorem ensure_wildcard_meter_keyError :
    let rd : ResourcesDefinition := ⟨"instance", ["disk.*"], [], none, false, some "low"⟩
    let d : GnocchiDispatcher Store Unit :=
      ⟨false, "service", [rd], Store.apply, fun _ s => (.error .unexpectedError, s), none, id,
        fun _ => 0⟩
    let resource : Dict := [("id", .str "r1"), ("user_id", .none), ("project_id", .none),
      ("metrics", .dict rd.metrics)]
    let result := (d.ensureResourceAndMetric "instance" resource "disk.read.bytes").run
      ⟨Store.empty, (), none, [], []⟩
    rd.matchMetric "disk.read.bytes" = .ok true ∧
      raised result = some (.keyError "disk.read.bytes") ∧
      ((final result).remote.find "instance" "r1").isSome ∧
      (((final result).remote.find "instance" "r1").bind (·.metrics "disk.read.bytes")).isNone := by
  intro rd d resource result
  decide

end Ceilometer.Dispatcher
