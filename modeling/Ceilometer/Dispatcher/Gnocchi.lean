import Ceilometer.Dispatcher.Definition
import Ceilometer.Dispatcher.Grouping

/-!
# The Gnocchi dispatcher

`GnocchiDispatcher` of `dispatcher/gnocchi.py` as a program in the error-and-state
monad over a `World`: the state of the remote services (Gnocchi and keystone), the
memcache contents and the memoised Gnocchi project id. The world also logs every
call made on the Gnocchi client and every dict whose attribute hash was computed,
so that properties of a run can talk about them.

The remote services are fields of the dispatcher: `gnocchi` says how the Gnocchi
API answers a call in a given remote state, which covers every behaviour of the
client (a history-dependent one takes the call log as its state). CPython's
`hash` and the `uuid5` cache key are fields too, since they are not bit-exact here.
Threads do not appear in this sequential model: `with self._gnocchi_resource_lock`
is the identity, and `Reconcile` models the interleavings.
-/

namespace Ceilometer.Dispatcher

/-- A call of the dispatcher on `gnocchi_client.Client`. -/
inductive Call where
  | postMeasure (resourceType resourceId metricName : String) (measures : List Measure)
  | createResource (resourceType : String) (resource : Dict)
  | createMetric (resourceType : String) (resourceId : Value) (metricName : String)
      (archivePolicy : Value)
  | updateResource (resourceType resourceId : String) (resourceExtra : Dict)
  deriving DecidableEq, Repr

/-- A memcache client over its contents `τ`: `get(key)` and `set(key, value, ttl)`. -/
structure CacheClient (τ : Type) where
  get : String → τ → Option UInt64
  set : String → UInt64 → Nat → τ → τ

/-- A configured dispatcher, over a remote state `σ` and cache contents `τ`: the options
`filter_service_activity` and `filter_project`, `resources_definition` in the order of the
definition file, how the Gnocchi API (`self._gnocchi`) answers a call, keystone's
`tenants.find(name=...)` returning the project's id, the memcache client `self.cache` when
`memcached_servers` is set, `cache_key_mangler`, and `hash(frozenset(items))` on dicts whose
values are hashable. -/
structure GnocchiDispatcher (σ τ : Type) where
  filterServiceActivity : Bool
  filterProject : String
  resourcesDefinition : List ResourcesDefinition
  gnocchi : Call → σ → Except PyExc Unit × σ
  tenantsFind : String → σ → Except PyExc String × σ
  cache : Option (CacheClient τ)
  cacheKeyMangler : String → String
  hash : Dict → UInt64

/-- What a run of the dispatcher changes: the remote services, the memcache contents and
`self._gnocchi_project_id`; and logs of every call made on the Gnocchi client and of every
dict whose hash `_check_resource_cache` computed, in order. -/
structure World (σ τ : Type) where
  remote : σ
  cache : τ
  gnocchiProjectId : Option String
  calls : List Call
  hashed : List Dict

/-- Python statements: they return or raise, and keep their effects when they raise. -/
abbrev DispatchM (σ τ : Type) := EStateM PyExc (World σ τ)

/-- Lexicographic `<` on lists of characters, by code point. -/
def charsLt : List Char → List Char → Bool
  | [], [] => false
  | [], _ :: _ => true
  | _ :: _, [] => false
  | c :: cs, d :: ds => c.toNat < d.toNat || (c = d && charsLt cs ds)

/-- Python's `<` on `str`: code points, compared lexicographically. -/
def strLt (a b : String) : Bool := charsLt a.data b.data

/-- `(a['resource_id'], a['counter_name']) <= (b['resource_id'], b['counter_name'])`. -/
def sampleKeyLe (a b : Sample) : Bool :=
  strLt a.resourceId b.resourceId ||
    (a.resourceId = b.resourceId && !strLt b.counterName a.counterName)

/-- `if attribute_hash:`, where the hash is `None` or an int: `None` and `0` are false. -/
def truthy : Option UInt64 → Bool
  | some h => h ≠ 0
  | none => false

section Primitives

variable {σ τ : Type}

/-- Raise what an `Except` raised. -/
def liftExcept {α : Type} : Except PyExc α → DispatchM σ τ α
  | .ok a => pure a
  | .error e => throw e

def getCache (c : CacheClient τ) (key : String) : DispatchM σ τ (Option UInt64) :=
  fun w => .ok (c.get key w.cache) w

def setCache (c : CacheClient τ) (key : String) (value : UInt64) (ttl : Nat) :
    DispatchM σ τ Unit :=
  fun w => .ok () { w with cache := c.set key value ttl w.cache }

/-- `if attribute_hash: body(attribute_hash)`. -/
def whenHash (attributeHash : Option UInt64) (body : UInt64 → DispatchM σ τ Unit) :
    DispatchM σ τ Unit :=
  match attributeHash with
  | some h => if h ≠ 0 then body h else pure ()
  | none => pure ()

end Primitives

namespace GnocchiDispatcher

variable {σ τ : Type} (d : GnocchiDispatcher σ τ)

/-- A call on the Gnocchi client, logged. -/
def gnocchiCall (c : Call) : DispatchM σ τ Unit := fun w =>
  match d.gnocchi c w.remote with
  | (.ok (), remote) => .ok () { w with remote, calls := w.calls ++ [c] }
  | (.error e, remote) => .error e { w with remote, calls := w.calls ++ [c] }

/-- The `gnocchi_project_id` property: looked up until it is found once. -/
def gnocchiProjectId : DispatchM σ τ String := fun w =>
  match w.gnocchiProjectId with
  | some pid => .ok pid w
  | none =>
    match d.tenantsFind d.filterProject w.remote with
    | (.ok pid, remote) => .ok pid { w with remote, gnocchiProjectId := some pid }
    | (.error e, remote) => .error e { w with remote }

/-- `_is_swift_account_sample`: the list comprehension tries every definition, in order,
and `match` runs on those of type `swift_account`; the first that raises ends it. -/
def isSwiftAccountSample (sample : Sample) : Except PyExc Bool := do
  let rds ← d.resourcesDefinition.filterM fun rd =>
    if rd.resourceType = "swift_account" then rd.matchMetric sample.counterName else pure false
  return !rds.isEmpty

/-- `_is_gnocchi_activity`: the short-circuit `and`/`or` read the project id lazily. -/
def isGnocchiActivity (sample : Sample) : DispatchM σ τ Bool :=
  if d.filterServiceActivity then do
    let pid ← d.gnocchiProjectId
    if sample.projectId = .str pid then
      return true
    else
      let pid ← d.gnocchiProjectId
      if sample.resourceId = pid then liftExcept (d.isSwiftAccountSample sample) else return false
  else
    return false

/-- `[s for s in data if not self._is_gnocchi_activity(s)]`. -/
def dropGnocchiActivity : List Sample → DispatchM σ τ (List Sample)
  | [] => pure []
  | s :: data => do
    let activity ← d.isGnocchiActivity s
    let rest ← dropGnocchiActivity data
    return if activity then rest else s :: rest

/-- `_get_resource_definition`: the first definition matching the metric; a `match` that
raises ends the search. -/
def getResourceDefinition (metricName : String) : Except PyExc (Option ResourcesDefinition) :=
  d.resourcesDefinition.findM? fun rd => rd.matchMetric metricName

/-- `cache_key_mangler(resource['id'])`; `key.encode` needs a `str`. -/
def cacheKeyOf (resource : Dict) : DispatchM σ τ String :=
  match resource.get? "id" with
  | some (.str id) => pure (d.cacheKeyMangler id)
  | some _ => throw .attributeError
  | none => throw (.keyError "id")

/-- `hash(frozenset(resource_info.items()))`. -/
def attributeHash (info : Dict) : DispatchM σ τ UInt64 := fun w =>
  let w := { w with hashed := w.hashed ++ [info] }
  if info.all fun kv => kv.2.hashable then .ok (d.hash info) w else .error .typeError w

/-- `_check_resource_cache`: the hash of the resource without its metrics, when the
cache does not hold it. -/
def checkResourceCache (c : CacheClient τ) (key : String) (resourceData : Dict) :
    DispatchM σ τ (Option UInt64) := do
  let attributeHash ← d.attributeHash (resourceData.delItem "metrics")
  let cachedHash ← getCache c key
  return if cachedHash ≠ some attributeHash then some attributeHash else none

/-- The double-checked block that `_ensure_resource_and_metric` puts around
`create_resource` and `_process_resource` around `update_resource`: check the cache,
check again under `_gnocchi_resource_lock`, then act and remember the hash. -/
def cacheGuarded (c : CacheClient τ) (resource : Dict) (action : DispatchM σ τ Unit) :
    DispatchM σ τ Unit := do
  let cacheKey ← d.cacheKeyOf resource
  whenHash (← d.checkResourceCache c cacheKey resource) fun _ => do
    whenHash (← d.checkResourceCache c cacheKey resource) fun attributeHash => do
      action
      setCache c cacheKey attributeHash 3600

/-- `resource['metrics'][metric_name]`. -/
def metricArchivePolicy (resource : Dict) (metricName : String) : Except PyExc Value :=
  match resource.getItem "metrics" with
  | .ok (.dict metrics) => Dict.getItem metrics metricName
  | .ok _ => .error .typeError
  | .error e => .error e

/-- The `create_metric` block of `_ensure_resource_and_metric`, which ignores
`MetricAlreadyExists`; the method runs it twice. -/
def createMetric (resourceType : String) (resource : Dict) (metricName : String) :
    DispatchM σ τ Unit :=
  tryCatch (do
      let archivePolicy ← liftExcept (metricArchivePolicy resource metricName)
      let resourceId ← liftExcept (resource.getItem "id")
      d.gnocchiCall (.createMetric resourceType resourceId metricName archivePolicy))
    fun e => if e = .metricAlreadyExists then pure () else throw e

/-- The `create_resource` block of `_ensure_resource_and_metric`. -/
def createResource (resourceType : String) (resource : Dict) : DispatchM σ τ Unit :=
  match d.cache with
  | some c => d.cacheGuarded c resource (d.gnocchiCall (.createResource resourceType resource))
  | none => d.gnocchiCall (.createResource resourceType resource)

/-- `_ensure_resource_and_metric`. -/
def ensureResourceAndMetric (resourceType : String) (resource : Dict) (metricName : String) :
    DispatchM σ τ Unit := do
  tryCatch (d.createResource resourceType resource) fun e =>
    if e = .resourceAlreadyExists then d.createMetric resourceType resource metricName
    else throw e
  d.createMetric resourceType resource metricName

/-- The `post_measure` block of `_process_resource`: on `NoSuchMetric`, ensure the
resource and metric and post once more. -/
def postMeasure (resourceType resourceId metricName : String) (measures : List Measure)
    (resource : Dict) : DispatchM σ τ Unit :=
  tryCatch (d.gnocchiCall (.postMeasure resourceType resourceId metricName measures)) fun e =>
    if e = .noSuchMetric then do
      d.ensureResourceAndMetric resourceType resource metricName
      tryCatch (d.gnocchiCall (.postMeasure resourceType resourceId metricName measures))
        fun e => if e = .noSuchMetric then pure () else throw e
    else throw e

/-- The variables the loop of `_process_resource` carries: `resource_extra`, and the
`resource_type` and `resource` of the last metric group it handled. -/
structure ResourceAcc where
  resourceExtra : Dict
  last : Option (String × Dict)

/-- The body of the loop of `_process_resource`, for one metric group. -/
def processMetric (resourceId : String) (acc : ResourceAcc) (metricName : String)
    (samples : List Sample) : DispatchM σ τ ResourceAcc :=
  match d.getResourceDefinition metricName with
  | .error e => throw e
  | .ok none => pure acc
  | .ok (some rd) =>
    if rd.ignore then pure acc else
    match samples with
    | [] => throw .indexError
    | first :: _ => do
      let resourceType := rd.resourceType
      let resource : Dict := [("id", .str resourceId), ("user_id", first.userId),
        ("project_id", first.projectId), ("metrics", .dict rd.metrics)]
      let resourceExtra := samples.foldl (fun extra s => extra.update (rd.attributes s))
        acc.resourceExtra
      let measures := samples.map fun s => ⟨s.timestamp, s.counterVolume⟩
      let resource := resource.update resourceExtra
      d.postMeasure resourceType resourceId metricName measures resource
      return ⟨resourceExtra, some (resourceType, resource)⟩

/-- The loop of `_process_resource` over the metric groups. -/
def processMetrics (resourceId : String) :
    ResourceAcc → List (String × List Sample) → DispatchM σ τ ResourceAcc
  | acc, [] => pure acc
  | acc, (metricName, samples) :: rest => do
    let acc ← d.processMetric resourceId acc metricName samples
    processMetrics resourceId acc rest

/-- The end of `_process_resource`: reconcile the resource's attributes. -/
def reconcile (resourceId : String) (acc : ResourceAcc) : DispatchM σ τ Unit :=
  if acc.resourceExtra = [] then pure () else
  match acc.last with
  | none => throw (.other "UnboundLocalError")
  | some (resourceType, resource) =>
    match d.cache with
    | some c => d.cacheGuarded c resource
        (d.gnocchiCall (.updateResource resourceType resourceId acc.resourceExtra))
    | none => d.gnocchiCall (.updateResource resourceType resourceId acc.resourceExtra)

/-- `_process_resource`, under `log_and_ignore_unexpected_workflow_error`. -/
def processResource (resourceId : String) (metricGroupedSamples : List (String × List Sample)) :
    DispatchM σ τ Unit :=
  tryCatch (do
      let acc ← d.processMetrics resourceId ⟨[], none⟩ metricGroupedSamples
      d.reconcile resourceId acc)
    fun e => if e = .unexpectedError then pure () else throw e

/-- The loop of `record_metering_data` over the resource groups. -/
def processResources : List (String × List Sample) → DispatchM σ τ Unit
  | [] => pure ()
  | (resourceId, samplesOfResource) :: rest => do
    d.processResource resourceId (groupby Sample.counterName samplesOfResource)
    processResources rest

/-- `record_metering_data`. -/
def recordMeteringData (data : List Sample) : DispatchM σ τ Unit := do
  let data ← d.dropGnocchiActivity data
  d.processResources (groupby Sample.resourceId (sortBy sampleKeyLe data))

/-- Once the activity filter has returned `kept`, the batch is the loop over its resource
groups. -/
theorem recordMeteringData_run {data kept : List Sample} {w w₁ : World σ τ}
    (drop : d.dropGnocchiActivity data w = .ok kept w₁) :
    (d.recordMeteringData data).run w =
      d.processResources (groupby Sample.resourceId (sortBy sampleKeyLe kept)) w₁ := by
  show (d.dropGnocchiActivity data >>= _) w = _
  rw [bind_apply, drop]

/-! ### When every pattern compiles -/

/-- Every metric pattern of every definition compiles, so that no `fnmatch` raises. -/
def Compiles : Prop := ∀ rd ∈ d.resourcesDefinition, rd.Compiles

instance : Decidable d.Compiles :=
  inferInstanceAs (Decidable (∀ rd ∈ d.resourcesDefinition, rd.Compiles))

/-- What `_is_swift_account_sample` returns when every pattern compiles. -/
def swiftAccountMatch (sample : Sample) : Bool :=
  d.resourcesDefinition.any fun rd =>
    rd.resourceType = "swift_account" && rd.matchesMetric sample.counterName

theorem isSwiftAccountSample_of_compiles (ok : d.Compiles) (sample : Sample) :
    d.isSwiftAccountSample sample = .ok (d.swiftAccountMatch sample) := by
  have each : ∀ rd ∈ d.resourcesDefinition,
      (if rd.resourceType = "swift_account" then rd.matchMetric sample.counterName else pure false) =
        .ok (rd.resourceType = "swift_account" && rd.matchesMetric sample.counterName) :=
    fun rd member => by
      by_cases swift : rd.resourceType = "swift_account"
      · simp [swift, ResourcesDefinition.matchMetric_of_compiles (ok rd member)]
      · simp only [swift, if_false, decide_False, Bool.false_and]
        rfl
  simp only [isSwiftAccountSample, filterM_ok each, swiftAccountMatch]
  show Except.ok (!(List.filter _ _).isEmpty) = _
  congr 1
  rw [Bool.eq_iff_iff]
  simp [List.isEmpty_iff, List.filter_eq_nil_iff, List.any_eq_true]

/-- `_is_swift_account_sample` raises nothing but the `re.error` of a pattern. -/
theorem isSwiftAccountSample_raises {sample : Sample} {e : PyExc}
    (raised : d.isSwiftAccountSample sample = .error e) : e = .reError := by
  unfold isSwiftAccountSample at raised
  cases found : d.resourcesDefinition.filterM fun rd =>
      if rd.resourceType = "swift_account" then rd.matchMetric sample.counterName else pure false with
  | ok rds => rw [found] at raised; cases raised
  | error e' =>
    rw [found] at raised
    cases raised
    obtain ⟨rd, -, condition⟩ := filterM_error found
    split at condition
    · exact ResourcesDefinition.matchMetric_raises condition
    · cases condition

theorem getResourceDefinition_of_compiles (ok : d.Compiles) (metricName : String) :
    d.getResourceDefinition metricName =
      .ok (d.resourcesDefinition.find? fun rd => rd.matchesMetric metricName) :=
  findM?_ok fun rd member => ResourcesDefinition.matchMetric_of_compiles (ok rd member) metricName

end GnocchiDispatcher

end Ceilometer.Dispatcher
