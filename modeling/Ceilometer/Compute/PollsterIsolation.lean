import Ceilometer.Compute.Pollsters

/-!
# Failure isolation of the pollsters

A loop that isolates failures yields, in order, the sample of each resource whose
`try` block succeeds (`isolatedSamples`). The pollsters' loop does that whenever its
`except` chain catches every exception the block raises (`guardedSamples_eq_isolated`),
which `except Exception` guarantees.

## Main results

- `pollsters_isolate_failures`: every pollster class but `InstanceUserCheckPollster`
  isolates failures (for `InstanceFlavorPollster`, whose lookup of the flavor name is
  outside any `try`, when every flavor has a printable `'name'`), and every sample it
  yields is made from its own resource.
- `userCheck_yields_none`: `InstanceUserCheckPollster` yields one `None`, even for no
  resources.
-/

namespace Ceilometer.Compute

variable {ι : Type}

/-- The samples of the resources whose body succeeds, in order, threading the
inspector's state through every body: what a loop that isolates failures yields. -/
def isolatedSamples (body : Instance → ι → Except PyExc PollSample × ι) :
    List Instance → ι → List PollSample × ι
  | [], s => ([], s)
  | inst :: rest, s =>
    match body inst s with
    | (.ok sample, s) =>
      let (samples, s) := isolatedSamples body rest s
      (sample :: samples, s)
    | (.error _, s) => isolatedSamples body rest s

/-- The loop of the pollsters isolates failures when its chain catches what the body raises. -/
theorem guardedSamples_eq_isolated (clauses : List ExceptClass)
    (body : Instance → ι → Except PyExc PollSample × ι) (resources : List Instance) (s : ι)
    (caught : ∀ inst ∈ resources, ∀ s e, (body inst s).1 = .error e →
      clauses.any (·.catches e) = true) :
    guardedSamples clauses body resources s =
      (⟨(isolatedSamples body resources s).1.map some, none⟩, (isolatedSamples body resources s).2) := by
  induction resources generalizing s with
  | nil => rfl
  | cons inst rest ih =>
    have tail := fun s => ih s fun i member => caught i (List.mem_cons_of_mem _ member)
    cases outcome : body inst s with
    | mk r s' =>
      cases r with
      | ok sample => simp [guardedSamples, isolatedSamples, outcome, tail]
      | error e =>
        have handled := caught inst (List.mem_cons_self _ _) s e (by rw [outcome])
        simp [guardedSamples, isolatedSamples, outcome, handled, tail]

/-- A chain with `except Exception` catches everything. -/
theorem any_catches_of_exception {clauses : List ExceptClass} (member : .exception ∈ clauses)
    (e : PyExc) : clauses.any (·.catches e) = true :=
  List.any_eq_true.mpr ⟨.exception, member, rfl⟩

/-- The samples an isolating loop yields come from distinct resources, in list order,
when each body makes its sample from its own resource. -/
theorem isolatedSamples_sublist (body : Instance → ι → Except PyExc PollSample × ι)
    (own : ∀ inst s x, (body inst s).1 = .ok x → x.inst = inst) (resources : List Instance)
    (s : ι) : ((isolatedSamples body resources s).1.map (·.inst)).Sublist resources := by
  induction resources generalizing s with
  | nil => simp [isolatedSamples]
  | cons inst rest ih =>
    cases outcome : body inst s with
    | mk r s' =>
      cases r with
      | ok sample =>
        have : sample.inst = inst := own inst s sample (by rw [outcome])
        simpa [isolatedSamples, outcome, this] using ih s'
      | error e => simpa [isolatedSamples, outcome] using (ih s').cons inst

theorem inspectThen_own {inspect : Instance → ι → Except PyExc Value × ι} {checksNone : Bool}
    {build : Instance → Value → Except PyExc PollSample}
    (own : ∀ inst v x, build inst v = .ok x → x.inst = inst) :
    ∀ inst s x, (inspectThen inspect checksNone build inst s).1 = .ok x → x.inst = inst := by
  intro inst s x h
  unfold inspectThen at h
  split at h
  · cases h
  · split at h
    · cases h
    · exact own inst _ x h

/-! ### The pollster classes -/

/-- The pollster classes of `instance.py` and `memory.py`, each named after its class
without `Pollster`; `instanceMeter` is `InstancePollster`. -/
inductive PollsterClass where
  | instanceMeter
  | instanceFlavor
  | instanceSystemInfo
  | instanceOOMStatus
  | instanceAppStats
  | instancePingDelay
  | instanceUserCheck
  | memoryUsage
  | memoryResident
  | memoryTotal
  | memoryUnused
  | memorySwapTotal
  | memorySwapFree
  | memoryBuffer
  | memoryCached
  deriving DecidableEq, Repr

namespace PollsterClass

/-- `get_samples` of each class, fully consumed, with the inspector, the builtins and
the poll time of the memory pollsters. -/
def getSamples (p : PollsterClass) (inspector : Inspector ι) (builtins : Builtins)
    (inspectionDuration : Value) : List Instance → ι → Consumed × ι :=
  match p with
  | .instanceMeter => instancePollster
  | .instanceFlavor => instanceFlavorPollster builtins
  | .instanceSystemInfo => instanceSystemInfoPollster inspector builtins
  | .instanceOOMStatus => instanceOOMStatusPollster inspector
  | .instanceAppStats => instanceAppStatsPollster inspector builtins
  | .instancePingDelay => instancePingDelayPollster inspector builtins
  | .instanceUserCheck => instanceUserCheckPollster
  | .memoryUsage => memoryUsagePollster inspector inspectionDuration
  | .memoryResident => memoryResidentPollster inspector inspectionDuration
  | .memoryTotal => memoryTotalPollster inspector builtins
  | .memoryUnused => memoryUnusedPollster inspector builtins
  | .memorySwapTotal => memorySwapTotalPollster inspector builtins
  | .memorySwapFree => memorySwapFreePollster inspector builtins
  | .memoryBuffer => memoryBufferPollster inspector builtins
  | .memoryCached => memoryCachedPollster inspector builtins

/-- The loop body of each class but the stub: its `try` block, or the body of its loop
when it has no `try`. -/
def body (p : PollsterClass) (inspector : Inspector ι) (builtins : Builtins)
    (inspectionDuration : Value) : Instance → ι → Except PyExc PollSample × ι :=
  match p with
  | .instanceMeter => instanceSample
  | .instanceFlavor => instanceFlavorSample builtins
  | .instanceSystemInfo => instanceSystemInfoSample inspector builtins
  | .instanceOOMStatus => instanceOOMStatusSample inspector
  | .instanceAppStats => instanceAppStatsSample inspector builtins
  | .instancePingDelay => instancePingDelaySample inspector builtins
  | .instanceUserCheck => fun _ s => (.error (.other "StopIteration"), s)
  | .memoryUsage => memoryUsageSample inspector inspectionDuration
  | .memoryResident => memoryResidentSample inspector inspectionDuration
  | .memoryTotal => memoryTotalSample inspector builtins
  | .memoryUnused => memoryUnusedSample inspector builtins
  | .memorySwapTotal => memorySwapTotalSample inspector builtins
  | .memorySwapFree => memorySwapFreeSample inspector builtins
  | .memoryBuffer => memoryBufferSample inspector builtins
  | .memoryCached => memoryCachedSample inspector builtins

/-- The `except` chain of each class; none for the classes without a `try`. -/
def clauses : PollsterClass → List ExceptClass
  | .instanceMeter | .instanceFlavor | .instanceUserCheck => []
  | .instanceSystemInfo | .instanceOOMStatus | .instanceAppStats | .instancePingDelay =>
    instanceClauses
  | .memoryUsage | .memoryResident => memoryStatsClauses
  | .memoryTotal | .memoryUnused | .memorySwapTotal | .memorySwapFree | .memoryBuffer
  | .memoryCached => memoryInfoClauses

theorem getSamples_eq_guarded (p : PollsterClass) (stub : p ≠ .instanceUserCheck)
    (inspector : Inspector ι) (builtins : Builtins) (inspectionDuration : Value) :
    p.getSamples inspector builtins inspectionDuration =
      guardedSamples p.clauses (p.body inspector builtins inspectionDuration) := by
  cases p <;> first | rfl | exact absurd rfl stub

/-- Every body but the stub's makes its sample from its own resource. -/
theorem body_own (p : PollsterClass) (inspector : Inspector ι) (builtins : Builtins)
    (inspectionDuration : Value) :
    ∀ inst s x, (p.body inspector builtins inspectionDuration inst s).1 = .ok x → x.inst = inst := by
  have built : ∀ {α : Type} (r : Except PyExc α) (f : α → PollSample) (inst : Instance),
      (∀ a, (f a).inst = inst) → ∀ x, r.map f = .ok x → x.inst = inst := by
    intro α r f inst hf x h
    cases r <;> simp [Except.map] at h
    rw [← h, hf]
  cases p <;> first
    | exact fun inst s x h => by cases h; rfl
    | exact fun inst s x h => built _ _ inst (fun _ => rfl) x h
    | exact inspectThen_own fun inst v x h => built _ _ inst (fun _ => rfl) x h
    | exact inspectThen_own fun inst v x h => by cases h; rfl
    | exact fun inst s x h => by cases h

end PollsterClass

/-- A pollster class whose generator, consumed, never raises, and yields samples of
resources of the list, at most one per resource, in list order. -/
def YieldsOwnSamples (p : PollsterClass) : Prop :=
  ∀ (inspector : Inspector Unit) (builtins : Builtins) (inspectionDuration : Value)
    (resources : List Instance),
    let c := (p.getSamples inspector builtins inspectionDuration resources ()).1
    c.raised = none ∧ ∃ samples : List PollSample, c.items = samples.map some ∧
      (samples.map (·.inst)).Sublist resources

/-- A silent inspector and builtins that fail: whatever `InstanceUserCheckPollster` is
given, it yields `None`. -/
theorem userCheck_yields_none : ¬ YieldsOwnSamples .instanceUserCheck := by
  intro law
  obtain ⟨-, samples, items, -⟩ := law
    ⟨fun _ s => (.ok .none, s), fun _ s => (.ok .none, s), fun _ s => (.ok .none, s),
      fun _ s => (.ok .none, s), fun _ _ s => (.ok .none, s), fun _ _ s => (.ok .none, s),
      fun _ s => (.ok .none, s)⟩
    ⟨fun _ => .error .typeError, fun _ => .error .typeError, fun _ => .error .typeError⟩ .none []
  cases samples <;> simp [PollsterClass.getSamples, instanceUserCheckPollster] at items

/-- Failure isolation of the pollsters. `InstanceUserCheckPollster` yields a single
`None`. Every other class, for every inspector (with a state of its own), every choice
of the builtins and every list of resources, yields exactly the samples of the
resources whose loop body succeeds, in list order, each made from its own resource, and
raises nothing; for `InstanceFlavorPollster`, which reads the flavor name outside any
`try`, this holds when every resource's flavor has a `'name'` that `str` accepts. -/
theorem pollsters_isolate_failures (p : PollsterClass) (inspector : Inspector ι)
    (builtins : Builtins) (inspectionDuration : Value) (resources : List Instance) (s : ι)
    (named : p = .instanceFlavor → ∀ inst ∈ resources,
      ∃ n, (Dict.getItem inst.flavor "name").bind builtins.str = .ok n) :
    (p = .instanceUserCheck →
      (p.getSamples inspector builtins inspectionDuration resources s).1 = ⟨[none], none⟩) ∧
    (p ≠ .instanceUserCheck →
      let body := p.body inspector builtins inspectionDuration
      p.getSamples inspector builtins inspectionDuration resources s =
        (⟨(isolatedSamples body resources s).1.map some, none⟩, (isolatedSamples body resources s).2) ∧
      ((isolatedSamples body resources s).1.map (·.inst)).Sublist resources) := by
  refine ⟨fun stub => by subst stub; rfl, fun stub => ⟨?_, ?_⟩⟩
  · rw [PollsterClass.getSamples_eq_guarded p stub]
    apply guardedSamples_eq_isolated
    intro inst member s' e raised
    by_cases flavor : p = .instanceFlavor
    · subst flavor
      obtain ⟨n, found⟩ := named rfl inst member
      simp [PollsterClass.body, instanceFlavorSample, found, Except.map] at raised
    · cases p <;> first
        | exact absurd rfl stub
        | exact absurd rfl flavor
        | exact any_catches_of_exception (by decide) e
        | simp [PollsterClass.body, instanceSample] at raised
  · exact isolatedSamples_sublist _ (PollsterClass.body_own p inspector builtins inspectionDuration)
      resources s

/-- The hypothesis on flavors can be met: `pollsters_isolate_failures` for the flavor
pollster on one instance of flavor `m1.tiny`. -/
theorem flavor_pollster_isolates_one :
    let inst : Instance := ⟨"i-1", [("name", .str "m1.tiny")], []⟩
    let builtins : Builtins := ⟨fun | .str t => .ok t | _ => .error .typeError,
      fun _ => .error .typeError, fun _ => .error .typeError⟩
    let inspector : Inspector Unit := ⟨fun _ s => (.ok .none, s), fun _ s => (.ok .none, s),
      fun _ s => (.ok .none, s), fun _ s => (.ok .none, s), fun _ _ s => (.ok .none, s),
      fun _ _ s => (.ok .none, s), fun _ s => (.ok .none, s)⟩
    let body := PollsterClass.instanceFlavor.body inspector builtins .none
    (∀ i ∈ [inst], ∃ n, (Dict.getItem i.flavor "name").bind builtins.str = .ok n) ∧
      PollsterClass.instanceFlavor.getSamples inspector builtins .none [inst] () =
        (⟨(isolatedSamples body [inst] ()).1.map some, none⟩, (isolatedSamples body [inst] ()).2) := by
  intro inst builtins inspector body
  have named : ∀ i ∈ [inst], ∃ n, (Dict.getItem i.flavor "name").bind builtins.str = .ok n := by
    intro i member
    rw [List.mem_singleton.mp member]
    exact ⟨"m1.tiny", rfl⟩
  exact ⟨named, ((pollsters_isolate_failures .instanceFlavor inspector builtins .none [inst] ()
    fun _ => named).2 (by decide)).1⟩

end Ceilometer.Compute
