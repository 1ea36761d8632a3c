import Ceilometer.Dispatcher.Effects
import Ceilometer.Dispatcher.Store

/-!
# Delivery of a batch

What `record_metering_data` posts. The loop of `_process_resource` carries an
accumulator whose invariant (`AccOk`) says the attributes gathered so far are plain
and the resource it remembers can be hashed; each metric group is one step
(`processMetric_handled`, `processMetric_unhandled`).

The client's contract (`Contract`) is stated relative to an invariant `Inv` of the
backend's state that every call keeps, so that a backend that answers well only from the
states it can reach is covered: a Gnocchi store keeps the contract from every state
(`contract_store`), and in the states where given metrics exist, which every call keeps
and from which a `post_measure` to them returns (`contract_hasMetrics`). Every result assumes that every metric
pattern compiles (`Compiles`): otherwise `fnmatch` raises `re.error`, which escapes
`record_metering_data`.

## Main results

- `record_posts_each_pair_once`: when every expected `post_measure` returns, a batch is
  posted as one call per distinct handled `(resource_id, counter_name)` pair, in
  increasing order, with the measures of all the pair's samples; the run is
  `_process_resource` once per distinct resource id, in increasing order.
- `record_isolates_resources`: within the client's contract, a failure while
  processing a resource never ends the batch, and only skips the later meters of that
  resource.
-/

namespace Ceilometer.Dispatcher

/-- A sample's measure: `{'timestamp': ..., 'value': ...}`. -/
def measureOf (s : Sample) : Measure := ⟨s.timestamp, s.counterVolume⟩

/-- An attributes dict that shadows neither `id` nor `metrics` of the resource, and whose
values are hashable. -/
def PlainDict (extra : Dict) : Prop :=
  ∀ kv ∈ extra, kv.2.hashable = true ∧ kv.1 ≠ "id" ∧ kv.1 ≠ "metrics"

theorem plainDict_nil : PlainDict [] := fun _ h => absurd h (List.not_mem_nil _)

theorem PlainDict.update {extra e : Dict} (hExtra : PlainDict extra) (hE : PlainDict e) :
    PlainDict (extra.update e) := fun kv member =>
  (Dict.mem_update member).elim (hExtra kv) (hE kv)

theorem PlainDict.get?_eq_none {extra : Dict} (plain : PlainDict extra) {key : String}
    (shadowed : key = "id" ∨ key = "metrics") : Dict.get? extra.reverse key = none := by
  cases found : Dict.get? extra.reverse key with
  | none => rfl
  | some v =>
    obtain ⟨-, notId, notMetrics⟩ := plain _ (List.mem_reverse.mp (Dict.mem_of_get? found))
    rcases shadowed with rfl | rfl
    exacts [absurd rfl notId, absurd rfl notMetrics]

/-- The resource dict `_process_resource` builds for a metric group of resource `rid`
whose first sample is `first`, with the attributes gathered so far. -/
def resourceDict (rid : String) (rd : ResourcesDefinition) (first : Sample) (extra : Dict) : Dict :=
  Dict.update [("id", .str rid), ("user_id", first.userId), ("project_id", first.projectId),
    ("metrics", .dict rd.metrics)] extra

section ResourceDict

variable {rid : String} {rd : ResourcesDefinition} {first : Sample} {extra : Dict}
  (plain : PlainDict extra)
include plain

theorem resourceDict_id : (resourceDict rid rd first extra).get? "id" = some (.str rid) := by
  simp [resourceDict, plain.get?_eq_none (.inl rfl)]

theorem resourceDict_metrics :
    (resourceDict rid rd first extra).get? "metrics" = some (.dict rd.metrics) := by
  simp [resourceDict, plain.get?_eq_none (.inr rfl)]

theorem resourceDict_cacheSafe (user : first.userId.hashable = true)
    (project : first.projectId.hashable = true) :
    GnocchiDispatcher.CacheSafe (resourceDict rid rd first extra) := by
  refine ⟨⟨rid, resourceDict_id plain⟩, List.all_eq_true.mpr fun kv member => ?_⟩
  obtain ⟨member, notMetrics⟩ := List.mem_filter.mp member
  rcases Dict.mem_update member with base | attr
  · simp only [List.mem_cons, List.mem_singleton, List.not_mem_nil, or_false] at base
    rcases base with rfl | rfl | rfl | rfl
    · rfl
    · exact user
    · exact project
    · simp at notMetrics
  · exact (plain kv attr).1

end ResourceDict

theorem get?_foldl_setItem (v : Value) (key : String) :
    ∀ (ts : List String) (acc : Dict),
      (ts.foldl (fun m t => m.setItem t v) acc).get? key = if key ∈ ts then some v else acc.get? key
  | [], _ => by simp
  | t :: ts, acc => by
    rw [List.foldl_cons, get?_foldl_setItem v key ts, Dict.get?_setItem]
    by_cases same : t = key
    · subst same; simp
    · simp [same, Ne.symm same]

/-- Every pattern of a definition is a key of its `metrics()`. -/
theorem get?_metrics {rd : ResourcesDefinition} {t : String} (member : t ∈ rd.metricPatterns) :
    ∃ p, rd.metrics.get? t = some p := by
  unfold ResourcesDefinition.metrics
  cases rd.archivePolicyName <;> simp [get?_foldl_setItem, member]

theorem metricArchivePolicy_resourceDict {rid : String} {rd : ResourcesDefinition}
    {first : Sample} {extra : Dict} (plain : PlainDict extra) {metricName : String}
    (member : metricName ∈ rd.metricPatterns) :
    ∃ p, GnocchiDispatcher.metricArchivePolicy (resourceDict rid rd first extra) metricName = .ok p := by
  obtain ⟨p, found⟩ := get?_metrics member
  refine ⟨p, ?_⟩
  have metrics : (resourceDict rid rd first extra).getItem "metrics" = .ok (.dict rd.metrics) :=
    (Dict.getItem_eq_ok _ _ _).mpr (resourceDict_metrics plain)
  simp only [GnocchiDispatcher.metricArchivePolicy, metrics]
  exact (Dict.getItem_eq_ok _ _ _).mpr found

/-- The `post_measure` calls of a log. -/
def postCalls (calls : List Call) : List Call := calls.filter Call.isPost

/-- Gnocchi's store raises, on each call, only the exception the dispatcher's `except`
clause names, or `UnexpectedError`. -/
theorem Store.apply_expected (c : Call) (store : Store) {e : PyExc}
    (raised : (Store.apply c store).1 = .error e) : c.expected e = true := by
  unfold Store.apply at raised
  repeat' split at raised
  all_goals cases raised
  all_goals first | rfl | rw [Store.created_error (by assumption : Store.created _ _ = .error e)]; rfl

namespace GnocchiDispatcher

variable {σ τ : Type} (d : GnocchiDispatcher σ τ)

/-- The definition that handles a meter in `_process_resource`: the first that matches
it, unless that one is ignored; none when the lookup raises. -/
def handledBy (metricName : String) : Option ResourcesDefinition :=
  match d.getResourceDefinition metricName with
  | .ok rd => rd.filter fun rd => !rd.ignore
  | .error _ => none

theorem getResourceDefinition_of_handledBy {metricName : String} {rd : ResourcesDefinition}
    (handled : d.handledBy metricName = some rd) :
    d.getResourceDefinition metricName = .ok (some rd) ∧ rd.ignore = false := by
  unfold handledBy at handled
  cases looked : d.getResourceDefinition metricName with
  | error e => rw [looked] at handled; cases handled
  | ok found =>
    rw [looked] at handled
    obtain ⟨found, kept⟩ := Option.filter_eq_some.mp handled
    exact ⟨by rw [Option.mem_def.mp found], by simpa using kept⟩

theorem mem_of_handledBy {metricName : String} {rd : ResourcesDefinition}
    (handled : d.handledBy metricName = some rd) : rd ∈ d.resourcesDefinition :=
  mem_of_findM? (d.getResourceDefinition_of_handledBy handled).1

/-- The attributes gathered over a metric group. -/
def gather (rd : ResourcesDefinition) (extra : Dict) (samples : List Sample) : Dict :=
  samples.foldl (fun extra s => extra.update (rd.attributes s)) extra

/-- What the cache path and the metric lookup assume of a batch: hashable user and
project ids, and plain attributes from every definition. -/
def PlainBatch (data : List Sample) : Prop :=
  ∀ s ∈ data, s.userId.hashable = true ∧ s.projectId.hashable = true ∧
    ∀ rd ∈ d.resourcesDefinition, PlainDict (rd.attributes s)

theorem plain_gather {rd : ResourcesDefinition} (member : rd ∈ d.resourcesDefinition) :
    ∀ (samples : List Sample) (extra : Dict), d.PlainBatch samples → PlainDict extra →
      PlainDict (gather rd extra samples)
  | [], _, _, plain => plain
  | s :: samples, extra, batch, plain =>
    plain_gather member samples (extra.update (rd.attributes s))
      (fun t ht => batch t (List.mem_cons_of_mem _ ht))
      (plain.update ((batch s (List.mem_cons_self _ _)).2.2 rd member))

/-! ### One metric group -/

/-- `_get_resource_definition` raised: the metric group raises it. -/
theorem processMetric_raises {metricName : String} {e : PyExc}
    (raised : d.getResourceDefinition metricName = .error e) (resourceId : String) (acc : ResourceAcc)
    (samples : List Sample) : d.processMetric resourceId acc metricName samples = throw e := by
  simp only [processMetric, raised]

theorem processMetric_unhandled {metricName : String} {found : Option ResourcesDefinition}
    (looked : d.getResourceDefinition metricName = .ok found) (unhandled : d.handledBy metricName = none)
    (resourceId : String) (acc : ResourceAcc) (samples : List Sample) :
    d.processMetric resourceId acc metricName samples = pure acc := by
  unfold processMetric
  rw [looked]
  cases found with
  | none => rfl
  | some rd =>
    have : rd.ignore = true := by simpa [handledBy, looked] using unhandled
    simp [this]

theorem processMetric_handled {metricName : String} {rd : ResourcesDefinition}
    (handled : d.handledBy metricName = some rd) (resourceId : String) (acc : ResourceAcc)
    (first : Sample) (rest : List Sample) :
    d.processMetric resourceId acc metricName (first :: rest) =
      let extra := gather rd acc.resourceExtra (first :: rest)
      let resource := resourceDict resourceId rd first extra
      d.postMeasure rd.resourceType resourceId metricName ((first :: rest).map measureOf) resource >>=
        fun _ => pure ⟨extra, some (rd.resourceType, resource)⟩ := by
  obtain ⟨found, kept⟩ := d.getResourceDefinition_of_handledBy handled
  simp only [processMetric, found, kept]
  rfl

theorem processMetric_nil {metricName : String} {rd : ResourcesDefinition}
    (handled : d.handledBy metricName = some rd) (resourceId : String) (acc : ResourceAcc) :
    d.processMetric resourceId acc metricName [] = throw .indexError := by
  obtain ⟨found, kept⟩ := d.getResourceDefinition_of_handledBy handled
  simp [processMetric, found, kept]

/-- What one metric group returns: the accumulator as it was, when no definition handles
the meter, or the gathered attributes with the group's resource dict. -/
theorem processMetric_returned {resourceId metricName : String} {acc acc' : ResourceAcc}
    {samples : List Sample} {w w' : World σ τ}
    (run : d.processMetric resourceId acc metricName samples w = .ok acc' w') :
    acc' = acc ∨ ∃ rd first rest, d.handledBy metricName = some rd ∧ samples = first :: rest ∧
      acc' = ⟨gather rd acc.resourceExtra samples,
        some (rd.resourceType, resourceDict resourceId rd first (gather rd acc.resourceExtra samples))⟩ := by
  cases handled : d.handledBy metricName with
  | none =>
    cases looked : d.getResourceDefinition metricName with
    | error e => rw [processMetric_raises d looked] at run; cases run
    | ok found =>
      rw [processMetric_unhandled d looked handled] at run
      cases run
      exact .inl rfl
  | some rd =>
    cases samples with
    | nil => rw [processMetric_nil d handled] at run; cases run
    | cons first rest =>
      rw [processMetric_handled d handled, bind_apply] at run
      split at run
      · cases run
        exact .inr ⟨rd, first, rest, rfl, rfl, rfl⟩
      · cases run

/-- The invariant of the loop of `_process_resource`: the gathered attributes are plain,
a resource is remembered once any are gathered, and that resource can be hashed. -/
structure AccOk (acc : ResourceAcc) : Prop where
  plain : PlainDict acc.resourceExtra
  bound : acc.last = none → acc.resourceExtra = []
  last : ∀ rt resource, acc.last = some (rt, resource) → CacheSafe resource

theorem accOk_init : AccOk ⟨[], none⟩ := ⟨plainDict_nil, fun _ => rfl, fun _ _ h => by cases h⟩

/-- One metric group keeps the invariant. -/
theorem processMetric_accOk {resourceId metricName : String} {acc acc' : ResourceAcc}
    {samples : List Sample} {w w' : World σ τ} (hacc : AccOk acc) (batch : d.PlainBatch samples)
    (run : d.processMetric resourceId acc metricName samples w = .ok acc' w') : AccOk acc' := by
  rcases d.processMetric_returned run with rfl | ⟨rd, first, rest, handled, rfl, rfl⟩
  · exact hacc
  · have plain := d.plain_gather (d.mem_of_handledBy handled) _ _ batch hacc.plain
    obtain ⟨user, project, -⟩ := batch first (List.mem_cons_self _ _)
    refine ⟨plain, fun h => (by cases h), fun _ _ h => ?_⟩
    cases h
    exact resourceDict_cacheSafe plain user project

theorem processMetrics_accOk {resourceId : String} :
    ∀ {groups : List (String × List Sample)} {acc acc' : ResourceAcc} {w w' : World σ τ},
      AccOk acc → (∀ g ∈ groups, d.PlainBatch g.2) →
      d.processMetrics resourceId acc groups w = .ok acc' w' → AccOk acc'
  | [], _, _, _, _, hacc, _, run => by cases run; exact hacc
  | (m, samples) :: rest, acc, acc', w, w', hacc, batch, run => by
    simp only [processMetrics, bind_apply] at run
    split at run
    · exact processMetrics_accOk (processMetric_accOk d hacc (batch _ (List.mem_cons_self _ _)) ‹_›)
        (fun g member => batch g (List.mem_cons_of_mem _ member)) run
    · cases run

/-- The metric groups of a resource as `_process_resource` receives them: non-empty,
from a plain batch. -/
def GroupsOk (groups : List (String × List Sample)) : Prop :=
  ∀ g ∈ groups, d.PlainBatch g.2 ∧ g.2 ≠ []

/-- Every handled meter of the groups is one of its definition's patterns, so that
`resource['metrics'][metric_name]` finds it. -/
def Literal (groups : List (String × List Sample)) : Prop :=
  ∀ g ∈ groups, ∀ rd, d.handledBy g.1 = some rd → g.1 ∈ rd.metricPatterns

/-! ### Within the client's contract -/

section Contract

variable {d} {Inv : σ → Prop} {made : Call → Prop} {allowed : PyExc → Prop} {resourceId : String}
  (answers : d.Answers Inv made allowed) (about : ∀ c, c.resourceId = .str resourceId → made c)
  (compiles : d.Compiles)
include answers about compiles

/-- One metric group stays within the contract and, when a definition handles its
meter, makes its `post_measure`. -/
theorem processMetric_spec {acc : ResourceAcc} (hacc : AccOk acc) {metricName : String}
    {samples : List Sample} (batch : d.PlainBatch samples) (nonempty : samples ≠ [])
    (literal : ∀ rd, d.handledBy metricName = some rd → metricName ∈ rd.metricPatterns) :
    Confined Inv made allowed (d.processMetric resourceId acc metricName samples) ∧
      ∀ rd, d.handledBy metricName = some rd →
        Attempts Inv (.postMeasure rd.resourceType resourceId metricName (samples.map measureOf))
          (d.processMetric resourceId acc metricName samples) := by
  cases handled : d.handledBy metricName with
  | none =>
    rw [processMetric_unhandled d (d.getResourceDefinition_of_compiles compiles _) handled]
    exact ⟨confined_pure acc, fun _ h => by cases h⟩
  | some rd =>
    obtain ⟨first, rest, rfl⟩ := List.exists_cons_of_ne_nil nonempty
    rw [processMetric_handled d handled]
    have plain := d.plain_gather (d.mem_of_handledBy handled) _ _ batch hacc.plain
    obtain ⟨user, project, -⟩ := batch first (List.mem_cons_self _ _)
    let extra := gather rd acc.resourceExtra (first :: rest)
    obtain ⟨p, policy⟩ : ∃ p,
        metricArchivePolicy (resourceDict resourceId rd first extra) metricName = .ok p :=
      metricArchivePolicy_resourceDict plain (literal rd handled)
    have id : (resourceDict resourceId rd first extra).get? "id" = some (.str resourceId) :=
      resourceDict_id plain
    obtain ⟨confined, attempts⟩ := postMeasure_spec answers (resourceDict_cacheSafe plain user project)
      id policy (about _ rfl) (about _ (by simp [Call.resourceId, id])) (about _ rfl)
    refine ⟨confined.bind fun _ => confined_pure _, fun rd' same => ?_⟩
    cases same
    exact attempts.bind_of confined (P := fun _ => True) (fun _ _ _ _ => trivial) fun _ _ =>
      (confined_pure _ : Confined Inv made allowed _)

theorem confined_processMetrics :
    ∀ {groups : List (String × List Sample)} {acc : ResourceAcc}, AccOk acc → d.GroupsOk groups →
      d.Literal groups → Confined Inv made allowed (d.processMetrics resourceId acc groups)
  | [], acc, _, _, _ => confined_pure acc
  | (m, samples) :: rest, _, hacc, groups, literal => by
    obtain ⟨batch, nonempty⟩ := groups _ (List.mem_cons_self _ _)
    exact (processMetric_spec answers about compiles hacc batch nonempty
      (literal _ (List.mem_cons_self _ _))).1.bind_of (P := AccOk)
      (fun _ _ _ run => d.processMetric_accOk hacc batch run) fun _ hacc' =>
        confined_processMetrics hacc' (fun g member => groups g (List.mem_cons_of_mem _ member))
          fun g member => literal g (List.mem_cons_of_mem _ member)

/-- The body of `_process_resource`, before its decorator. -/
theorem confined_processBody {groups : List (String × List Sample)} (hGroups : d.GroupsOk groups)
    (literal : d.Literal groups) :
    Confined Inv made allowed
      (d.processMetrics resourceId ⟨[], none⟩ groups >>= d.reconcile resourceId) :=
  (confined_processMetrics answers about compiles accOk_init hGroups literal).bind_of (P := AccOk)
    (fun _ _ _ run => d.processMetrics_accOk accOk_init (fun g member => (hGroups g member).1) run)
    fun acc hacc => confined_reconcile answers resourceId acc hacc.bound
      fun rt resource h => ⟨hacc.last rt resource h, about _ rfl⟩

/-- In the loop over the metric groups, a handled group's `post_measure` is made when
every group before it returns: each is unhandled, or nothing can be raised. -/
theorem attempts_processMetrics {g : String × List Sample} {rd : ResourcesDefinition}
    (handled : d.handledBy g.1 = some rd) (rest : List (String × List Sample)) :
    ∀ (pre : List (String × List Sample)) {acc : ResourceAcc}, AccOk acc →
      d.GroupsOk (pre ++ g :: rest) → d.Literal (pre ++ g :: rest) →
      ((∀ x ∈ pre, d.handledBy x.1 = none) ∨ ∀ e, ¬ allowed e) →
      Attempts Inv (.postMeasure rd.resourceType resourceId g.1 (g.2.map measureOf))
        (d.processMetrics resourceId acc (pre ++ g :: rest))
  | [], _, hacc, groups, literal, _ => by
    obtain ⟨batch, nonempty⟩ := groups g (List.mem_cons_self _ _)
    obtain ⟨m, samples⟩ := g
    have spec := processMetric_spec answers about compiles hacc batch nonempty
      (literal _ (List.mem_cons_self _ _))
    exact (spec.2 rd handled).bind_of spec.1 (P := AccOk)
      (fun _ _ _ run => d.processMetric_accOk hacc batch run) fun _ hacc' =>
        confined_processMetrics answers about compiles hacc' (fun x m => groups x (List.mem_cons_of_mem _ m))
          fun x m => literal x (List.mem_cons_of_mem _ m)
  | (m, samples) :: pre, acc, hacc, groups, literal, before => by
    obtain ⟨batch, nonempty⟩ := groups _ (List.mem_cons_self _ _)
    have spec := processMetric_spec answers about compiles hacc batch nonempty
      (literal _ (List.mem_cons_self _ _))
    refine attempts_bind_after (P := AccOk) (fun w hw => ?_) fun acc' hacc' =>
      attempts_processMetrics handled rest pre hacc' (fun y member => groups y (List.mem_cons_of_mem _ member))
        (fun y member => literal y (List.mem_cons_of_mem _ member))
        (before.imp_left fun h y member => h y (List.mem_cons_of_mem _ member))
    obtain ⟨acc', w', run, inv⟩ : ∃ acc' w', d.processMetric resourceId acc m samples w = .ok acc' w' ∧
        Inv w'.remote := by
      rcases before with unhandled | quiet
      · rw [processMetric_unhandled d (d.getResourceDefinition_of_compiles compiles _)
          (unhandled _ (List.mem_cons_self _ _))]
        exact ⟨acc, w, rfl, hw⟩
      · exact (spec.1.mono (fun _ h => h) fun e h => quiet e h).returns hw
    exact ⟨acc', w', run, d.processMetric_accOk hacc batch run, inv⟩

/-- The decorator catches what the body raises within the contract, so
`_process_resource` never raises; it makes the `post_measure` of a handled group when
every group before it returns. -/
theorem processResource_spec (unexpected : ∀ e, allowed e → e = .unexpectedError)
    {groups : List (String × List Sample)} (hGroups : d.GroupsOk groups) (literal : d.Literal groups) :
    Confined Inv made (fun _ => False) (d.processResource resourceId groups) ∧
      ∀ pre g rest rd, groups = pre ++ g :: rest → d.handledBy g.1 = some rd →
        ((∀ x ∈ pre, d.handledBy x.1 = none) ∨ ∀ e, ¬ allowed e) →
        Attempts Inv (.postMeasure rd.resourceType resourceId g.1 (g.2.map measureOf))
          (d.processResource resourceId groups) := by
  have body := confined_processBody answers about compiles hGroups literal
  have caught : ∀ e, allowed e →
      Confined Inv made (fun _ => False)
        (if e = .unexpectedError then pure () else throw e : DispatchM σ τ Unit) :=
    fun e h => by
      rw [if_pos (unexpected e h)]
      exact confined_pure ()
  refine ⟨Confined.tryCatch body caught, fun pre g rest rd split handled before => ?_⟩
  subst split
  have loop := confined_processMetrics answers about compiles accOk_init hGroups literal
  exact Attempts.tryCatch body ((attempts_processMetrics answers about compiles handled rest pre
    accOk_init hGroups literal before).bind_of loop (P := AccOk)
      (fun _ _ _ run => d.processMetrics_accOk accOk_init (fun g member => (hGroups g member).1) run)
      fun acc hacc => confined_reconcile answers resourceId acc hacc.bound
        fun rt resource h => ⟨hacc.last rt resource h, about _ rfl⟩) caught

end Contract

/-! ### The batch -/

/-- The contract of the Gnocchi client in the states of `Inv`: each call keeps `Inv` and
raises only what the dispatcher expects of it. -/
def Contract (Inv : σ → Prop) : Prop :=
  ∀ c s, Inv s → Inv (d.gnocchi c s).2 ∧ ∀ e, (d.gnocchi c s).1 = .error e → c.expected e = true

theorem answers_of_contract {Inv : σ → Prop} (contract : d.Contract Inv) (made : Call → Prop) :
    d.Answers Inv made (· = .unexpectedError) :=
  fun c _ s hs => ⟨(contract c s hs).1, fun e h => ⟨(contract c s hs).2 e h, id⟩⟩

/-- A backend that never raises `UnexpectedError` on the calls about a resource lets
nothing be raised while processing it. -/
theorem answers_of_no_unexpected {Inv : σ → Prop} (contract : d.Contract Inv) {resourceId : String}
    (never : ∀ c s, Inv s → c.resourceId = .str resourceId → (d.gnocchi c s).1 ≠ .error .unexpectedError) :
    d.Answers Inv (fun c => c.resourceId = .str resourceId) (fun _ => False) :=
  fun c about s hs => ⟨(contract c s hs).1, fun e h =>
    ⟨(contract c s hs).2 e h, fun he => never c s hs about (he ▸ h)⟩⟩

section StoreContract

variable {τ : Type} {d : GnocchiDispatcher Store τ} (backend : d.gnocchi = Store.apply)
include backend

/-- Gnocchi's store keeps the client's contract from every state. -/
theorem contract_store : d.Contract fun _ => True :=
  fun c s _ => ⟨trivial, fun _ raised => Store.apply_expected c s (backend ▸ raised)⟩

/-- It also keeps it in the states where given resources have given metrics, which every
call keeps; from those states a `post_measure` to one of them returns. -/
theorem contract_hasMetrics (metrics : List (String × String × String)) :
    d.Contract fun s => ∀ t ∈ metrics, s.HasMetric t.1 t.2.1 t.2.2 :=
  fun c s has => ⟨fun t member => backend ▸ Store.apply_keeps_hasMetric (has t member) c,
    fun _ raised => Store.apply_expected c s (backend ▸ raised)⟩

end StoreContract

theorem mem_of_resourceGroups {kept : List Sample} {x : String × List Sample}
    (hx : x ∈ groupby Sample.resourceId (sortBy sampleKeyLe kept))
    {g : String × List Sample} (hg : g ∈ groupby Sample.counterName x.2) {t : Sample}
    (ht : t ∈ g.2) : t ∈ kept :=
  (perm_sortBy _ kept).mem_iff.mp (mem_of_mem_groupby _ hx (mem_of_mem_groupby _ hg ht))

/-- A meter group listed before `g` among a resource's groups holds a kept sample of that
resource whose meter name comes before `g`'s. -/
theorem exists_earlier_of_groupby {kept : List Sample} {x : String × List Sample}
    (hx : x ∈ groupby Sample.resourceId (sortBy sampleKeyLe kept))
    {gpre grest : List (String × List Sample)} {g y : String × List Sample}
    (splitG : groupby Sample.counterName x.2 = gpre ++ g :: grest) (hy : y ∈ gpre) :
    ∃ t ∈ kept, t.resourceId = x.1 ∧ t.counterName = y.1 ∧ t.counterName < g.1 := by
  have hyG : y ∈ groupby Sample.counterName x.2 := splitG ▸ List.mem_append_left _ hy
  obtain ⟨t, ht⟩ := List.exists_mem_of_ne_nil _ (groupby_group _ _ y hyG).1
  have tY := (groupby_group _ _ y hyG).2 t ht
  exact ⟨t, mem_of_resourceGroups hx hyG ht,
    (groupby_group _ _ x hx).2 t (mem_of_mem_groupby _ hyG ht), tY,
    tY ▸ groupby_lt_of_eq_append Sample.counterName (sorted_by_metric kept hx) splitG y hy⟩

/-- What `record_metering_data` hands to `_process_resource`, for a batch whose samples
come from a plain `data`. -/
theorem resourceGroups_plain {data kept : List Sample} (plain : d.PlainBatch data)
    (sub : ∀ s ∈ kept, s ∈ data) :
    ∀ x ∈ groupby Sample.resourceId (sortBy sampleKeyLe kept),
      d.GroupsOk (groupby Sample.counterName x.2) := fun _ hx g hg =>
  ⟨fun t ht => plain t (sub t (mem_of_resourceGroups hx hg ht)), (groupby_group _ _ g hg).1⟩

theorem resourceGroups_ok {data kept : List Sample} (plain : d.PlainBatch data)
    (literal : ∀ s ∈ data, ∀ rd, d.handledBy s.counterName = some rd → s.counterName ∈ rd.metricPatterns)
    (sub : ∀ s ∈ kept, s ∈ data) :
    ∀ x ∈ groupby Sample.resourceId (sortBy sampleKeyLe kept),
      d.GroupsOk (groupby Sample.counterName x.2) ∧ d.Literal (groupby Sample.counterName x.2) := by
  refine fun x hx => ⟨d.resourceGroups_plain plain sub x hx, fun g hg rd handled => ?_⟩
  obtain ⟨t, ht⟩ := List.exists_mem_of_ne_nil _ (groupby_group _ _ g hg).1
  rw [← (groupby_group _ _ g hg).2 t ht] at handled ⊢
  exact literal t (sub t (mem_of_resourceGroups hx hg ht)) rd handled

section Batch

variable {d} {Inv : σ → Prop} (contract : d.Contract Inv) (compiles : d.Compiles)
include contract compiles

/-- Within the contract, the loop of `record_metering_data` returns. -/
theorem processResources_returns :
    ∀ (resources : List (String × List Sample)),
      (∀ x ∈ resources, d.GroupsOk (groupby Sample.counterName x.2) ∧
        d.Literal (groupby Sample.counterName x.2)) →
      Confined Inv (fun _ => True) (fun _ => False) (d.processResources resources)
  | [], _ => confined_pure ()
  | (r, samples) :: rest, ok => by
    obtain ⟨hGroups, literal⟩ := ok _ (List.mem_cons_self _ _)
    exact (processResource_spec (d.answers_of_contract contract _) (fun _ _ => trivial) compiles
      (fun _ h => h) hGroups literal).1.bind fun _ =>
        processResources_returns rest fun x member => ok x (List.mem_cons_of_mem _ member)

theorem attempts_processResources {c : Call} {x : String × List Sample}
    (att : Attempts Inv c (d.processResource x.1 (groupby Sample.counterName x.2)))
    (rest : List (String × List Sample)) :
    ∀ pre : List (String × List Sample),
      (∀ y ∈ pre ++ x :: rest, d.GroupsOk (groupby Sample.counterName y.2) ∧
        d.Literal (groupby Sample.counterName y.2)) →
      Attempts Inv c (d.processResources (pre ++ x :: rest))
  | [], ok => by
    obtain ⟨r, samples⟩ := x
    obtain ⟨hGroups, literal⟩ := ok _ (List.mem_cons_self _ _)
    exact att.bind_of (processResource_spec (d.answers_of_contract contract _) (fun _ _ => trivial)
        compiles (fun _ h => h) hGroups literal).1 (P := fun _ => True) (fun _ _ _ _ => trivial)
      fun _ _ => processResources_returns contract compiles rest
        fun y member => ok y (List.mem_cons_of_mem _ member)
  | (r, samples) :: pre, ok => by
    obtain ⟨hGroups, literal⟩ := ok _ (List.mem_cons_self _ _)
    have spec : Confined Inv (fun _ => True) (fun _ => False)
        (d.processResource r (groupby Sample.counterName samples)) :=
      (processResource_spec (d.answers_of_contract contract _) (fun _ _ => trivial) compiles
        (fun _ h => h) hGroups literal).1
    exact attempts_bind_after (P := fun _ => True)
      (fun w hw => by obtain ⟨u, w', run, inv⟩ := spec.returns hw; exact ⟨u, w', run, trivial, inv⟩)
      fun _ _ => attempts_processResources att rest pre
        fun y member => ok y (List.mem_cons_of_mem _ member)

end Batch

/-! ### Delivery when every `post_measure` returns -/

/-- The `post_measure` call of a pair's group, when a definition handles its meter. -/
def postOf (g : (String × String) × List Sample) : Option Call :=
  (d.handledBy g.1.2).map fun rd => .postMeasure rd.resourceType g.1.1 g.1.2 (g.2.map measureOf)

/-- What a batch is to be posted as: one `post_measure` per distinct
`(resource_id, counter_name)` pair whose meter a definition handles, in increasing order
of the pairs, with the measures of all the pair's samples in their input order. -/
def expectedPosts (data : List Sample) : List Call :=
  (sortBy pairLe (data.map pairOf).dedup).filterMap fun p =>
    d.postOf (p, data.filter fun s => pairOf s = p)

theorem isPost_of_postOf {g : (String × String) × List Sample} {c : Call}
    (h : d.postOf g = some c) : c.isPost = true := by
  obtain ⟨rd, -, rfl⟩ := Option.map_eq_some'.mp h
  rfl

/-- The calls the groups of a resource are posted as are `post_measure` calls. -/
theorem postCalls_filterMap_postOf {β : Type} (f : β → (String × String) × List Sample)
    (l : List β) : postCalls (l.filterMap fun b => d.postOf (f b)) = l.filterMap fun b => d.postOf (f b) :=
  List.filter_eq_self.mpr fun c member => by
    obtain ⟨b, -, h⟩ := List.mem_filterMap.mp member
    exact d.isPost_of_postOf h

/-- The posts of a batch's groups, resource by resource, are its expected posts. -/
theorem expectedPosts_eq (data : List Sample) :
    d.expectedPosts data = (groupby Sample.resourceId (sortBy sampleKeyLe data)).flatMap fun x =>
      (groupby Sample.counterName x.2).filterMap fun g => d.postOf ((x.1, g.1), g.2) := by
  have grouped : d.expectedPosts data = (pairGroups data).filterMap d.postOf := by
    rw [pairGroups_eq, List.filterMap_map]
    rfl
  rw [grouped, pairGroups, List.filterMap_flatMap]
  congr
  funext x
  rw [List.filterMap_map]
  rfl

section Returns

variable {d} {Inv : σ → Prop} (contract : d.Contract Inv) (compiles : d.Compiles)
include contract

omit compiles in
theorem postMeasure_posts {resourceType resourceId metricName : String} {measures : List Measure}
    (returns : ∀ s, Inv s →
      (d.gnocchi (.postMeasure resourceType resourceId metricName measures) s).1 = .ok ())
    (resource : Dict) {w : World σ τ} (hw : Inv w.remote) :
    ∃ w', d.postMeasure resourceType resourceId metricName measures resource w = .ok () w' ∧
      w'.calls = w.calls ++ [.postMeasure resourceType resourceId metricName measures] ∧
      Inv w'.remote := by
  have answered := returns w.remote hw
  have inv := (contract (.postMeasure resourceType resourceId metricName measures) w.remote hw).1
  unfold postMeasure gnocchiCall
  rw [tryCatch_apply]
  cases reply : d.gnocchi (.postMeasure resourceType resourceId metricName measures) w.remote with
  | mk r remote =>
    rw [reply] at answered inv
    cases answered
    exact ⟨_, rfl, rfl, inv⟩

include compiles

theorem processMetric_posts (resourceId : String) (acc : ResourceAcc) (metricName : String)
    {samples : List Sample} (nonempty : samples ≠ [])
    (returns : ∀ c ∈ d.postOf ((resourceId, metricName), samples), ∀ s, Inv s → (d.gnocchi c s).1 = .ok ())
    {w : World σ τ} (hw : Inv w.remote) :
    ∃ acc' w', d.processMetric resourceId acc metricName samples w = .ok acc' w' ∧
      w'.calls = w.calls ++ (d.postOf ((resourceId, metricName), samples)).toList ∧ Inv w'.remote := by
  cases handled : d.handledBy metricName with
  | none =>
    rw [processMetric_unhandled d (d.getResourceDefinition_of_compiles compiles _) handled]
    exact ⟨acc, w, rfl, by simp [postOf, handled], hw⟩
  | some rd =>
    obtain ⟨first, rest, rfl⟩ := List.exists_cons_of_ne_nil nonempty
    obtain ⟨w', run, calls, inv⟩ := postMeasure_posts contract
      (returns (.postMeasure rd.resourceType resourceId metricName ((first :: rest).map measureOf))
        (by simp [postOf, handled]))
      (resourceDict resourceId rd first (gather rd acc.resourceExtra (first :: rest))) hw
    rw [processMetric_handled d handled]
    exact ⟨_, w', by simp only [bind_apply, run]; rfl, by simp [calls, postOf, handled], inv⟩

theorem processMetrics_posts (resourceId : String) :
    ∀ (groups : List (String × List Sample)) (acc : ResourceAcc) {w : World σ τ},
      (∀ g ∈ groups, g.2 ≠ []) →
      (∀ g ∈ groups, ∀ c ∈ d.postOf ((resourceId, g.1), g.2), ∀ s, Inv s → (d.gnocchi c s).1 = .ok ()) →
      Inv w.remote →
      ∃ acc' w', d.processMetrics resourceId acc groups w = .ok acc' w' ∧
        w'.calls = w.calls ++ groups.filterMap (fun g => d.postOf ((resourceId, g.1), g.2)) ∧
        Inv w'.remote
  | [], acc, w, _, _, hw => ⟨acc, w, rfl, by simp, hw⟩
  | (m, samples) :: rest, acc, w, nonempty, returns, hw => by
    obtain ⟨acc₁, w₁, run₁, calls₁, inv₁⟩ := processMetric_posts contract compiles resourceId acc m
      (nonempty _ (List.mem_cons_self _ _)) (returns _ (List.mem_cons_self _ _)) hw
    obtain ⟨acc₂, w₂, run₂, calls₂, inv₂⟩ := processMetrics_posts resourceId rest acc₁
      (fun g member => nonempty g (List.mem_cons_of_mem _ member))
      (fun g member => returns g (List.mem_cons_of_mem _ member)) inv₁
    refine ⟨acc₂, w₂, by simp only [processMetrics, bind_apply, run₁]; exact run₂, ?_, inv₂⟩
    rw [calls₂, calls₁, List.filterMap_cons]
    cases d.postOf ((resourceId, m), samples) <;> simp

/-- `_process_resource` posts each handled group once, then at most reconciles. -/
theorem processResource_posts (resourceId : String) {groups : List (String × List Sample)}
    (hGroups : d.GroupsOk groups)
    (returns : ∀ g ∈ groups, ∀ c ∈ d.postOf ((resourceId, g.1), g.2), ∀ s, Inv s → (d.gnocchi c s).1 = .ok ())
    {w : World σ τ} (hw : Inv w.remote) :
    ∃ w', d.processResource resourceId groups w = .ok () w' ∧
      postCalls w'.calls =
        postCalls w.calls ++ groups.filterMap (fun g => d.postOf ((resourceId, g.1), g.2)) ∧
      Inv w'.remote := by
  obtain ⟨acc, w₁, run₁, calls₁, inv₁⟩ := processMetrics_posts contract compiles resourceId groups
    ⟨[], none⟩ (fun g h => (hGroups g h).2) returns hw
  have hacc := d.processMetrics_accOk accOk_init (fun g h => (hGroups g h).1) run₁
  have quiet := confined_reconcile (d.answers_of_contract contract fun c => c.isPost = false)
    resourceId acc hacc.bound fun rt resource h => ⟨hacc.last rt resource h, rfl⟩
  obtain ⟨⟨added, notPosts, calls₂⟩, raisedR, inv₂⟩ := quiet w₁ inv₁
  have noPosts : postCalls added = [] :=
    List.filter_eq_nil_iff.mpr fun c member => by simp [notPosts c member]
  have posts : ∀ w₂ : World σ τ, w₂.calls = w₁.calls ++ added → postCalls w₂.calls =
      postCalls w.calls ++ groups.filterMap fun g => d.postOf ((resourceId, g.1), g.2) := by
    intro w₂ h
    rw [h, calls₁, postCalls, List.filter_append, List.filter_append, ← postCalls, ← postCalls,
      ← postCalls, noPosts, postCalls_filterMap_postOf, List.append_nil]
  show ∃ w', tryCatch (d.processMetrics resourceId ⟨[], none⟩ groups >>= d.reconcile resourceId) _ w = _ ∧ _
  cases reconciled : d.reconcile resourceId acc w₁ with
  | ok u w₂ =>
    rw [reconciled] at calls₂ inv₂
    exact ⟨w₂, by simp only [tryCatch_apply, bind_apply, run₁, reconciled], posts w₂ calls₂, inv₂⟩
  | error e w₂ =>
    rw [reconciled] at calls₂ raisedR inv₂
    have unexpected : e = .unexpectedError := raisedR e rfl
    exact ⟨w₂, by simp [tryCatch_apply, bind_apply, run₁, reconciled, unexpected],
      posts w₂ calls₂, inv₂⟩

theorem processResources_posts :
    ∀ (resources : List (String × List Sample)) {w : World σ τ},
      (∀ x ∈ resources, d.GroupsOk (groupby Sample.counterName x.2)) →
      (∀ x ∈ resources, ∀ g ∈ groupby Sample.counterName x.2, ∀ c ∈ d.postOf ((x.1, g.1), g.2),
        ∀ s, Inv s → (d.gnocchi c s).1 = .ok ()) →
      Inv w.remote →
      ∃ w', d.processResources resources w = .ok () w' ∧
        postCalls w'.calls = postCalls w.calls ++ resources.flatMap (fun x =>
          (groupby Sample.counterName x.2).filterMap fun g => d.postOf ((x.1, g.1), g.2)) ∧
        Inv w'.remote
  | [], w, _, _, hw => ⟨w, rfl, by simp, hw⟩
  | (r, samples) :: rest, w, ok, returns, hw => by
    obtain ⟨w₁, run₁, calls₁, inv₁⟩ := processResource_posts contract compiles r
      (ok _ (List.mem_cons_self _ _)) (returns _ (List.mem_cons_self _ _)) hw
    obtain ⟨w₂, run₂, calls₂, inv₂⟩ := processResources_posts rest
      (fun x member => ok x (List.mem_cons_of_mem _ member))
      (fun x member => returns x (List.mem_cons_of_mem _ member)) inv₁
    refine ⟨w₂, by simp only [processResources, bind_apply, run₁]; exact run₂, ?_, inv₂⟩
    rw [calls₂, calls₁, List.flatMap_cons, List.append_assoc]

end Returns

/-- The loop of `record_metering_data` calls `_process_resource` once per group, in order. -/
theorem processResources_map (f : String → List Sample) : ∀ rs : List String,
    d.processResources (rs.map fun r => (r, f r)) =
      rs.forM fun r => d.processResource r (groupby Sample.counterName (f r))
  | [] => rfl
  | r :: rs => by
    rw [List.map_cons, processResources, processResources_map f rs]
    rfl

/-- The resource groups of a batch are its distinct resource ids, in order, each with the
batch's samples of that resource. -/
theorem resourceGroups_eq (kept : List Sample) :
    groupby Sample.resourceId (sortBy sampleKeyLe kept) =
      ((groupby Sample.resourceId (sortBy sampleKeyLe kept)).map Prod.fst).map fun r =>
        (r, (sortBy sampleKeyLe kept).filter fun s => s.resourceId = r) := by
  rw [List.map_map]
  conv_lhs => rw [← List.map_id (groupby Sample.resourceId (sortBy sampleKeyLe kept))]
  exact List.map_congr_left fun g member => Prod.ext rfl (resource_group_eq kept member)

/-- The drop of Gnocchi's activity leaves a backend that satisfies `Inv` when keystone
keeps it. -/
theorem dropGnocchiActivity_keeps {Inv : σ → Prop} (keystone : ∀ name s, Inv s → Inv (d.tenantsFind name s).2)
    {data kept : List Sample} {w w₁ : World σ τ} (run : d.dropGnocchiActivity data w = .ok kept w₁)
    (hw : Inv w.remote) : Inv w₁.remote := by
  rcases d.dropGnocchiActivity_remote run with same | found
  · rwa [same]
  · rw [found]
    exact keystone _ _ hw

/-- Failure isolation of `record_metering_data`. The Gnocchi client keeps its contract
(each call raises only what its `except` clause names, or `UnexpectedError`) in the
states of an invariant `Inv` that every call and keystone keep, the project id resolves,
every pattern compiles, the batch is plain (`PlainBatch`) and every handled meter is
literally one of its definition's patterns. Then the call returns, and for every handled
`(resource_id, counter_name)` pair of the kept samples, `post_measure` is made with the
pair's measures, provided the meter is the resource's first handled one or the backend
never raises `UnexpectedError` in a state of `Inv` on a call about that resource. What
the backend does with other resources never matters. -/
theorem record_isolates_resources (data : List Sample) (w : World σ τ) (pid : String)
    (Inv : σ → Prop) (start : Inv w.remote) (keystone : ∀ name s, Inv s → Inv (d.tenantsFind name s).2)
    (resolves : d.filterServiceActivity = true → ∃ w₁, d.gnocchiProjectId w = .ok pid w₁)
    (compiles : d.Compiles) (contract : d.Contract Inv) (plain : d.PlainBatch data)
    (literal : ∀ s ∈ data, ∀ rd, d.handledBy s.counterName = some rd →
      s.counterName ∈ rd.metricPatterns) :
    let kept := data.filter fun s => !d.isGnocchiActivityOf pid s
    ∃ w', (d.recordMeteringData data).run w = .ok () w' ∧
      ∀ s ∈ kept, ∀ rd, d.handledBy s.counterName = some rd →
        ((∀ t ∈ kept, t.resourceId = s.resourceId → t.counterName < s.counterName →
            d.handledBy t.counterName = none) ∨
          ∀ c st, Inv st → c.resourceId = .str s.resourceId →
            (d.gnocchi c st).1 ≠ .error .unexpectedError) →
        .postMeasure rd.resourceType s.resourceId s.counterName
          ((kept.filter fun t => pairOf t = pairOf s).map measureOf) ∈ w'.calls := by
  intro kept
  obtain ⟨w₁, drop, -⟩ := d.dropGnocchiActivity_resolves compiles resolves data
  have inv₁ := d.dropGnocchiActivity_keeps keystone drop start
  have sub : ∀ t ∈ kept, t ∈ data := fun t h => (List.mem_filter.mp h).1
  have groupsOk := d.resourceGroups_ok plain literal sub
  obtain ⟨u, w', run, -⟩ := (processResources_returns contract compiles _ groupsOk).returns inv₁
  refine ⟨w', (d.recordMeteringData_run drop).trans run, fun s hs rd handled before => ?_⟩
  obtain ⟨x, hx, xKey, g, hg, gKey, gSamples⟩ := exists_groups_of_mem kept hs
  obtain ⟨pre, rest, splitL⟩ := List.append_of_mem hx
  obtain ⟨gpre, grest, splitG⟩ := List.append_of_mem hg
  obtain ⟨hGroups, hLiteral⟩ := groupsOk x hx
  rw [← gKey] at handled
  have att : Attempts Inv (.postMeasure rd.resourceType x.1 g.1 (g.2.map measureOf))
      (d.processResource x.1 (groupby Sample.counterName x.2)) := by
    rcases before with first | never
    · refine (processResource_spec (d.answers_of_contract contract _) (fun _ h => h) compiles
        (fun _ h => h) hGroups hLiteral).2 gpre g grest rd splitG handled (.inl fun y hy => ?_)
      obtain ⟨t, tKept, tX, tY, earlier⟩ := exists_earlier_of_groupby hx splitG hy
      rw [← tY]
      exact first t tKept (tX.trans xKey) (gKey ▸ earlier)
    · rw [← xKey] at never
      exact (processResource_spec (d.answers_of_no_unexpected contract never) (fun _ h => h)
        compiles (fun _ h => h.elim) hGroups hLiteral).2 gpre g grest rd splitG handled
        (.inr fun _ h => h)
  have made := attempts_processResources contract compiles att rest pre
    (by rw [← splitL]; exact groupsOk) w₁ inv₁
  rw [← splitL, run] at made
  simpa [xKey, gKey, gSamples] using made

/-- A single `cpu` sample, against an empty Gnocchi store: the first `post_measure` raises
`NoSuchMetric`, the resource and its metric are created, and the sample is posted. -/
theorem single_cpu_sample_posted :
    let rd : ResourcesDefinition := ⟨"instance", ["cpu"], [], none, false, none⟩
    let d : GnocchiDispatcher Store Unit := ⟨false, "service", [rd], Store.apply,
      fun _ s => (.error .unexpectedError, s), none, id, fun _ => 0⟩
    let a : Sample := ⟨"r1", "cpu", .none, .none, .int 1, .int 10, []⟩
    ∃ w', (d.recordMeteringData [a]).run ⟨Store.empty, (), none, [], []⟩ = .ok () w' ∧
      .postMeasure "instance" "r1" "cpu" [⟨.int 1, .int 10⟩] ∈ w'.calls := by
  intro rd d a
  have handled : d.handledBy "cpu" = some rd := rfl
  obtain ⟨w', run, posted⟩ := record_isolates_resources d [a] ⟨Store.empty, (), none, [], []⟩ ""
    (fun _ => True) trivial (fun _ _ _ => trivial) (fun h => absurd h (by decide)) (by decide)
    (contract_store rfl)
    (fun s hs => by
      rw [List.mem_singleton.mp hs]
      exact ⟨rfl, rfl, fun rd' hrd => by rw [List.mem_singleton.mp hrd]; exact plainDict_nil⟩)
    (fun s hs rd' h => by
      rw [List.mem_singleton.mp hs] at h ⊢
      rw [handled] at h
      cases h
      decide)
  refine ⟨w', run, posted a (by decide) rd handled (.inl fun t ht _ earlier => ?_)⟩
  rw [List.mem_singleton.mp (List.mem_filter.mp ht).1] at earlier
  exact absurd earlier (lt_irrefl _)

/-- An `UnexpectedError` from the `post_measure` of a resource's first meter skips its
later meters: `memory` is never posted. -/
theorem unexpected_error_skips_later_meters :
    let rd : ResourcesDefinition := ⟨"instance", ["cpu", "memory"], [], none, false, none⟩
    let gnocchi : Call → Unit → Except PyExc Unit × Unit := fun c s =>
      match c with
      | .postMeasure _ _ "cpu" _ => (.error .unexpectedError, s)
      | _ => (.ok (), s)
    let d : GnocchiDispatcher Unit Unit := ⟨false, "service", [rd], gnocchi,
      fun _ s => (.error .unexpectedError, s), none, id, fun _ => 0⟩
    let cpu : Sample := ⟨"r1", "cpu", .none, .none, .int 1, .int 10, []⟩
    let memory : Sample := ⟨"r1", "memory", .none, .none, .int 1, .int 20, []⟩
    let result := (d.recordMeteringData [cpu, memory]).run ⟨(), (), none, [], []⟩
    raised result = none ∧
      (final result).calls = [.postMeasure "instance" "r1" "cpu" [⟨.int 1, .int 10⟩]] := by
  intro rd gnocchi d cpu memory result
  decide

/-- Exact delivery. When the project id resolves, every pattern compiles, the batch is
plain, the client keeps its contract in the states of an invariant `Inv` that every call
and keystone keep, and from those states every `post_measure` the batch is to make
returns: `record_metering_data` returns having made exactly the expected posts, and no
other. Its run is, after the activity filter, `_process_resource` called once per distinct
resource id of the kept samples, in increasing order, with that resource's samples. -/
theorem record_posts_each_pair_once (data : List Sample) (w : World σ τ) (pid : String)
    (Inv : σ → Prop) (start : Inv w.remote) (keystone : ∀ name s, Inv s → Inv (d.tenantsFind name s).2)
    (resolves : d.filterServiceActivity = true → ∃ w₁, d.gnocchiProjectId w = .ok pid w₁)
    (compiles : d.Compiles) (contract : d.Contract Inv) (plain : d.PlainBatch data)
    (postsReturn : ∀ c ∈ d.expectedPosts (data.filter fun s => !d.isGnocchiActivityOf pid s),
      ∀ s, Inv s → (d.gnocchi c s).1 = .ok ()) :
    let kept := data.filter fun s => !d.isGnocchiActivityOf pid s
    ∃ w', (d.recordMeteringData data).run w = .ok () w' ∧
      postCalls w'.calls = postCalls w.calls ++ d.expectedPosts kept ∧
      ∃ (w₁ : World σ τ) (resources : List String), resources.Sorted (· < ·) ∧
        (∀ r, r ∈ resources ↔ ∃ s ∈ kept, s.resourceId = r) ∧
        (d.recordMeteringData data).run w = (resources.forM fun r => d.processResource r
          (groupby Sample.counterName ((sortBy sampleKeyLe kept).filter fun s => s.resourceId = r))) w₁ := by
  intro kept
  obtain ⟨w₁, drop, calls₁⟩ := d.dropGnocchiActivity_resolves compiles resolves data
  have sub : ∀ t ∈ kept, t ∈ data := fun t h => (List.mem_filter.mp h).1
  have returns : ∀ x ∈ groupby Sample.resourceId (sortBy sampleKeyLe kept),
      ∀ g ∈ groupby Sample.counterName x.2, ∀ c ∈ d.postOf ((x.1, g.1), g.2), ∀ s, Inv s →
        (d.gnocchi c s).1 = .ok () := fun x hx g hg c hc =>
    postsReturn c (by
      rw [expectedPosts_eq, List.mem_flatMap]
      exact ⟨x, hx, List.mem_filterMap.mpr ⟨g, hg, hc⟩⟩)
  obtain ⟨w', run, posts, -⟩ := processResources_posts contract compiles _
    (d.resourceGroups_plain plain sub) returns (d.dropGnocchiActivity_keeps keystone drop start)
  have record := d.recordMeteringData_run drop
  refine ⟨w', record.trans run, by rw [posts, calls₁, expectedPosts_eq], w₁, _,
    groupby_keys_sorted _ (sorted_by_resource kept), fun r => ?_, ?_⟩
  · simp only [mem_groupby_keys, (perm_sortBy _ kept).mem_iff]
  · rw [record]
    conv_lhs => rw [resourceGroups_eq kept]
    rw [processResources_map]

/-- With `filter_service_activity` set and Keystone failing, the batch is dropped: the
call raises before any `post_measure`. -/
theorem record_raises_without_project_id :
    let rd : ResourcesDefinition := ⟨"instance", ["cpu"], [], none, false, none⟩
    let d : GnocchiDispatcher Unit Unit := ⟨true, "service", [rd], fun _ s => (.ok (), s),
      fun _ s => (.error (.other "NotFound"), s), none, id, fun _ => 0⟩
    let a : Sample := ⟨"r1", "cpu", .none, .none, .int 1, .int 10, []⟩
    let result := (d.recordMeteringData [a]).run ⟨(), (), none, [], []⟩
    raised result = some (.other "NotFound") ∧ (final result).calls = [] := by
  intro rd d a result
  decide

/-- A Gnocchi store that holds `r1` with a `memory` metric and `r2` with a `cpu` metric. -/
def twoMetricStore : Store :=
  (Store.empty.set "r1" ⟨"instance", fun _ => none, Store.createdMetrics [("memory", .none)]⟩).set "r2"
    ⟨"instance", fun _ => none, Store.createdMetrics [("cpu", .none)]⟩

/-- Two resources and three samples, against a Gnocchi store that has both metrics: one
post per pair, in order, with the pair's measures, and `_process_resource` once for `r1`,
then once for `r2`. -/
theorem two_resources_posted_once :
    let rd : ResourcesDefinition := ⟨"instance", ["cpu", "memory"], [], none, false, none⟩
    let d : GnocchiDispatcher Store Unit := ⟨false, "service", [rd], Store.apply,
      fun _ s => (.error .unexpectedError, s), none, id, fun _ => 0⟩
    let a : Sample := ⟨"r2", "cpu", .none, .none, .int 1, .int 10, []⟩
    let b : Sample := ⟨"r1", "memory", .none, .none, .int 1, .int 20, []⟩
    let c : Sample := ⟨"r2", "cpu", .none, .none, .int 2, .int 30, []⟩
    ∃ w', (d.recordMeteringData [a, b, c]).run ⟨twoMetricStore, (), none, [], []⟩ = .ok () w' ∧
      postCalls w'.calls = [.postMeasure "instance" "r1" "memory" [⟨.int 1, .int 20⟩],
        .postMeasure "instance" "r2" "cpu" [⟨.int 1, .int 10⟩, ⟨.int 2, .int 30⟩]] ∧
      ∃ w₁, (d.recordMeteringData [a, b, c]).run ⟨twoMetricStore, (), none, [], []⟩ =
        (d.processResource "r1" [("memory", [b])] >>= fun _ =>
          d.processResource "r2" [("cpu", [a, c])]) w₁ := by
  intro rd d a b c
  let metrics : List (String × String × String) := [("instance", "r1", "memory"), ("instance", "r2", "cpu")]
  have held : ∀ t ∈ metrics, twoMetricStore.HasMetric t.1 t.2.1 t.2.2 := by
    intro t member
    simp only [metrics, List.mem_cons, List.not_mem_nil, or_false] at member
    rcases member with rfl | rfl <;> exact ⟨_, rfl, rfl⟩
  have expected : d.expectedPosts ([a, b, c].filter fun s => !d.isGnocchiActivityOf "" s) =
      [.postMeasure "instance" "r1" "memory" [⟨.int 1, .int 20⟩],
        .postMeasure "instance" "r2" "cpu" [⟨.int 1, .int 10⟩, ⟨.int 2, .int 30⟩]] := rfl
  obtain ⟨w', run, posts, w₁, resources, sorted, keys, loop⟩ :=
    record_posts_each_pair_once d [a, b, c] ⟨twoMetricStore, (), none, [], []⟩ ""
      (fun s => ∀ t ∈ metrics, s.HasMetric t.1 t.2.1 t.2.2) held (fun _ _ h => h)
      (fun h => absurd h (by decide)) (by decide) (contract_hasMetrics rfl metrics)
      (fun s hs => by
        simp only [List.mem_cons, List.not_mem_nil, or_false] at hs
        refine ⟨?_, ?_, fun rd' hrd => by rw [List.mem_singleton.mp hrd]; exact plainDict_nil⟩ <;>
          rcases hs with rfl | rfl | rfl <;> rfl)
      (fun call posted s has => by
        rw [expected] at posted
        simp only [List.mem_cons, List.not_mem_nil, or_false] at posted
        rcases posted with rfl | rfl
        exacts [Store.apply_postMeasure_of_hasMetric (has _ (List.mem_cons_self _ _)) _,
          Store.apply_postMeasure_of_hasMetric (has _ (List.mem_cons_of_mem _ (List.mem_cons_self _ _))) _])
  have kept : ([a, b, c].filter fun s => !d.isGnocchiActivityOf "" s).map Sample.resourceId =
      ["r2", "r1", "r2"] := rfl
  have ids : resources = ["r1", "r2"] := by
    refine List.eq_of_perm_of_sorted ?_ sorted
      (List.sorted_cons.mpr ⟨by simpa using (strLt_iff "r1" "r2").mp rfl, List.sorted_singleton _⟩)
    rw [List.perm_ext_iff_of_nodup sorted.nodup (by simp)]
    intro r
    rw [keys r, ← List.mem_map, kept]
    simp only [List.mem_cons, List.not_mem_nil, or_false]
    rw [or_left_comm, or_self]
  refine ⟨w', run, by rw [posts, expected]; rfl, w₁, ?_⟩
  rw [loop, ids]
  simp only [List.forM, bind_pure_unit]
  rfl

end GnocchiDispatcher

end Ceilometer.Dispatcher
