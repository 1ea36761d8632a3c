import Ceilometer.Python

/-!
# Instance and memory pollsters

The `get_samples` generators of `compute/pollsters/instance.py` and
`compute/pollsters/memory.py`. Most of them inspect each instance inside a `try`
whose `except` chain ends with `except Exception`; they are one loop,
`guardedSamples`, applied to each class's own chain and body. Three classes differ:
`InstancePollster` inspects nothing, `InstanceFlavorPollster` reads the flavor name
outside any `try`, and `InstanceUserCheckPollster` is a stub that yields `None`.

The inspector is any function of the instance and of a state of its own, so its
answers may differ from call to call. The builtins `str`, `int` and `float` that the
pollsters apply to inspector results are parameters, and so is
`util.make_sample_from_instance`, which is represented by the arguments it is given.
-/

namespace Ceilometer.Compute

/-- A nova instance: its id, its flavor dict, and whatever else samples copy from it. -/
structure Instance where
  id : String
  flavor : Dict
  attributes : Dict
  deriving DecidableEq, Repr

/-- A sample built by `util.make_sample_from_instance`, with the arguments it was given. -/
structure PollSample where
  inst : Instance
  name : String
  type : String
  unit : String
  volume : Value
  additionalMetadata : Option Dict
  deriving DecidableEq, Repr

/-- `util.make_sample_from_instance(instance, name, type, unit, volume, additional_metadata)`. -/
def makeSampleFromInstance (inst : Instance) (name type unit : String) (volume : Value)
    (additionalMetadata : Option Dict) : PollSample :=
  ⟨inst, name, type, unit, volume, additionalMetadata⟩

/-- `sample.TYPE_GAUGE`. -/
def typeGauge : String := "gauge"

/-- The inspector, over a state `ι` of its own. -/
structure Inspector (ι : Type) where
  inspectSystemInfo : Instance → ι → Except PyExc Value × ι
  inspectOomStatus : Instance → ι → Except PyExc Value × ι
  inspectAppStats : Instance → ι → Except PyExc Value × ι
  inspectPingDelay : Instance → ι → Except PyExc Value × ι
  inspectMemoryUsage : Instance → Value → ι → Except PyExc Value × ι
  inspectMemoryResident : Instance → Value → ι → Except PyExc Value × ι
  inspectMemoryInfo : Instance → ι → Except PyExc Value × ι

/-- The builtins the pollsters apply to what the inspector returns; `float` gives the
IEEE 754 binary64 bits of the float it builds. -/
structure Builtins where
  str : Value → Except PyExc String
  int : Value → Except PyExc Int
  float : Value → Except PyExc UInt64

/-- What fully consuming a generator gives: the items it yielded (`none` is a yielded
`None`) and the exception that ended it, if one did. -/
structure Consumed where
  items : List (Option PollSample)
  raised : Option PyExc
  deriving DecidableEq, Repr

/-! ### Exception handling -/

/-- The classes named by the pollsters' `except` clauses. -/
inductive ExceptClass where
  | instanceNotFound
  | instanceShutOff
  | noData
  | instanceNoQGA
  | notImplementedError
  | ceilometerNotImplementedError
  | exception
  deriving DecidableEq, Repr

/-- Whether an `except` clause catches an exception: `Exception` catches all of them,
and the built-in `NotImplementedError` also catches ceilometer's subclass. -/
def ExceptClass.catches : ExceptClass → PyExc → Bool
  | .exception, _ => true
  | .notImplementedError, e => e = .notImplementedError || e = .ceilometerNotImplementedError
  | .ceilometerNotImplementedError, e => e = .ceilometerNotImplementedError
  | .instanceNotFound, e => e = .instanceNotFound
  | .instanceShutOff, e => e = .instanceShutOff
  | .noData, e => e = .noData
  | .instanceNoQGA, e => e = .instanceNoQGA

/-- `mem_info[key]` on what the inspector returned. -/
def subscript (v : Value) (key : String) : Except PyExc Value :=
  match v with
  | .dict d => Dict.getItem d key
  | _ => .error .typeError

/-- `memory_info.usage`: the inspector's named tuples, read as dicts. -/
def attr (v : Value) (name : String) : Except PyExc Value :=
  match v with
  | .dict d => (Dict.get? d name).elim (.error .attributeError) .ok
  | _ => .error .attributeError

variable {ι : Type}

/-- The loop of the pollsters: each instance's sample is made by `body`, inside a `try`
with the given `except` chain (no chain for the pollsters without a `try`); a caught
exception skips the instance, an uncaught one ends the generator. -/
def guardedSamples (clauses : List ExceptClass)
    (body : Instance → ι → Except PyExc PollSample × ι) : List Instance → ι → Consumed × ι
  | [], s => (⟨[], none⟩, s)
  | inst :: rest, s =>
    match body inst s with
    | (.ok sample, s) =>
      let (c, s) := guardedSamples clauses body rest s
      (⟨some sample :: c.items, c.raised⟩, s)
    | (.error e, s) =>
      if clauses.any (·.catches e) then guardedSamples clauses body rest s else (⟨[], some e⟩, s)

/-- The body shared by the guarded pollsters: inspect, raise `NotImplementedError` on
`None` when the class checks for it, then build the sample. -/
def inspectThen (inspect : Instance → ι → Except PyExc Value × ι) (checksNone : Bool)
    (build : Instance → Value → Except PyExc PollSample) (inst : Instance) (s : ι) :
    Except PyExc PollSample × ι :=
  match inspect inst s with
  | (.error e, s) => (.error e, s)
  | (.ok v, s) => if checksNone && v = .none then (.error .notImplementedError, s) else (build inst v, s)

/-! ### The pollsters of `instance.py` -/

/-- The loop body of `InstancePollster.get_samples`. -/
def instanceSample (inst : Instance) (s : ι) : Except PyExc PollSample × ι :=
  (.ok (makeSampleFromInstance inst "instance" typeGauge "instance" (.int 1) none), s)

/-- `InstancePollster.get_samples`. -/
def instancePollster : List Instance → ι → Consumed × ι := guardedSamples [] instanceSample

/-- The loop body of `InstanceFlavorPollster.get_samples`: `'instance:%s' % instance.flavor['name']`. -/
def instanceFlavorSample (builtins : Builtins) (inst : Instance) (s : ι) :
    Except PyExc PollSample × ι :=
  (((Dict.getItem inst.flavor "name").bind builtins.str).map fun flavorName =>
    makeSampleFromInstance inst ("instance:" ++ flavorName) typeGauge "instance" (.int 1) none, s)

/-- `InstanceFlavorPollster.get_samples`: it has no `try`. -/
def instanceFlavorPollster (builtins : Builtins) : List Instance → ι → Consumed × ι :=
  guardedSamples [] (instanceFlavorSample builtins)

/-- The `except` chain of the `Instance*` pollsters that inspect. -/
def instanceClauses : List ExceptClass := [.instanceNotFound, .notImplementedError, .exception]

/-- The `try` block of `InstanceSystemInfoPollster.get_samples`. -/
def instanceSystemInfoSample (inspector : Inspector ι) (builtins : Builtins) :
    Instance → ι → Except PyExc PollSample × ι :=
  inspectThen inspector.inspectSystemInfo true fun inst v =>
    (builtins.str v).map fun sysInfo => makeSampleFromInstance inst "instance.system.info"
      typeGauge "instance" (.int 1) (some [("system_info", .str sysInfo)])

/-- `InstanceSystemInfoPollster.get_samples`. -/
def instanceSystemInfoPollster (inspector : Inspector ι) (builtins : Builtins) :
    List Instance → ι → Consumed × ι :=
  guardedSamples instanceClauses (instanceSystemInfoSample inspector builtins)

/-- The `try` block of `InstanceOOMStatusPollster.get_samples`: `1` when the
inspector returned `True`. -/
def instanceOOMStatusSample (inspector : Inspector ι) : Instance → ι → Except PyExc PollSample × ι :=
  inspectThen inspector.inspectOomStatus true fun inst v =>
    .ok (makeSampleFromInstance inst "instance.oom.status" typeGauge "instance"
      (.int (if v = .bool true then 1 else 0)) none)

/-- `InstanceOOMStatusPollster.get_samples`. -/
def instanceOOMStatusPollster (inspector : Inspector ι) : List Instance → ι → Consumed × ι :=
  guardedSamples instanceClauses (instanceOOMStatusSample inspector)

/-- The `try` block of `InstanceAppStatsPollster.get_samples`. -/
def instanceAppStatsSample (inspector : Inspector ι) (builtins : Builtins) :
    Instance → ι → Except PyExc PollSample × ι :=
  inspectThen inspector.inspectAppStats true fun inst v =>
    (builtins.str v).map fun appStats => makeSampleFromInstance inst "instance.app.stats"
      typeGauge "instance" (.int 1) (some [("app_stats", .str appStats)])

/-- `InstanceAppStatsPollster.get_samples`. -/
def instanceAppStatsPollster (inspector : Inspector ι) (builtins : Builtins) :
    List Instance → ι → Consumed × ι :=
  guardedSamples instanceClauses (instanceAppStatsSample inspector builtins)

/-- The `try` block of `InstancePingDelayPollster.get_samples`: an empty delay, or one
`float` rejects, is `999`. -/
def instancePingDelaySample (inspector : Inspector ι) (builtins : Builtins) :
    Instance → ι → Except PyExc PollSample × ι :=
  inspectThen inspector.inspectPingDelay true fun inst v =>
    let delay := if v = .str "" then .int 999 else
      match builtins.float v with
      | .ok f => .float f
      | .error _ => .int 999
    .ok (makeSampleFromInstance inst "instance.ping.delay" typeGauge "instance" delay none)

/-- `InstancePingDelayPollster.get_samples`. -/
def instancePingDelayPollster (inspector : Inspector ι) (builtins : Builtins) :
    List Instance → ι → Consumed × ι :=
  guardedSamples instanceClauses (instancePingDelaySample inspector builtins)

/-- `InstanceUserCheckPollster.get_samples`: a bare `yield`, whatever the resources. -/
def instanceUserCheckPollster (_resources : List Instance) (s : ι) : Consumed × ι :=
  (⟨[none], none⟩, s)

/-! ### The pollsters of `memory.py` -/

/-- The `except` chain of `MemoryUsagePollster` and `MemoryResidentPollster`. -/
def memoryStatsClauses : List ExceptClass :=
  [.instanceNotFound, .instanceShutOff, .noData, .ceilometerNotImplementedError, .exception]

/-- The `except` chain of the pollsters that read `inspect_memory_info`. -/
def memoryInfoClauses : List ExceptClass :=
  [.instanceNoQGA, .instanceNotFound, .notImplementedError, .exception]

/-- The `try` block of `MemoryUsagePollster.get_samples`, given `self._record_poll_time()`:
no check for `None`, whose `usage` raises `AttributeError`. -/
def memoryUsageSample (inspector : Inspector ι) (inspectionDuration : Value) :
    Instance → ι → Except PyExc PollSample × ι :=
  inspectThen (fun inst => inspector.inspectMemoryUsage inst inspectionDuration) false
    fun inst v => (attr v "usage").map fun usage =>
      makeSampleFromInstance inst "memory.usage" typeGauge "MB" usage none

/-- `MemoryUsagePollster.get_samples`. -/
def memoryUsagePollster (inspector : Inspector ι) (inspectionDuration : Value) :
    List Instance → ι → Consumed × ι :=
  guardedSamples memoryStatsClauses (memoryUsageSample inspector inspectionDuration)

/-- The `try` block of `MemoryResidentPollster.get_samples`, given `self._record_poll_time()`. -/
def memoryResidentSample (inspector : Inspector ι) (inspectionDuration : Value) :
    Instance → ι → Except PyExc PollSample × ι :=
  inspectThen (fun inst => inspector.inspectMemoryResident inst inspectionDuration) false
    fun inst v => (attr v "resident").map fun resident =>
      makeSampleFromInstance inst "memory.resident" typeGauge "MB" resident none

/-- `MemoryResidentPollster.get_samples`. -/
def memoryResidentPollster (inspector : Inspector ι) (inspectionDuration : Value) :
    List Instance → ι → Consumed × ι :=
  guardedSamples memoryStatsClauses (memoryResidentSample inspector inspectionDuration)

/-- The `try` block of the pollsters over `inspect_memory_info`: the meter `name` with
the volume computed from the memory info dict. -/
def memoryInfoSample (inspector : Inspector ι) (name : String)
    (volume : Value → Except PyExc Int) : Instance → ι → Except PyExc PollSample × ι :=
  inspectThen inspector.inspectMemoryInfo true fun inst v =>
    (volume v).map fun n => makeSampleFromInstance inst name typeGauge "MB" (.int n) none

/-- `int(mem_info[key])`. -/
def infoInt (builtins : Builtins) (v : Value) (key : String) : Except PyExc Int :=
  (subscript v key).bind builtins.int

/-- The `try` block of `MemoryTotalPollster.get_samples`: `int(mem_info['total'])`. -/
def memoryTotalSample (inspector : Inspector ι) (builtins : Builtins) :=
  memoryInfoSample inspector "memory.total" fun v => infoInt builtins v "total"

/-- The `try` block of `MemoryUnusedPollster.get_samples`:
`int(mem_info['total']) - int(mem_info['used'])`. -/
def memoryUnusedSample (inspector : Inspector ι) (builtins : Builtins) :=
  memoryInfoSample inspector "memory.unused" fun v => do
    let total ← infoInt builtins v "total"
    let used ← infoInt builtins v "used"
    return total - used

/-- The `try` block of `MemorySwapTotalPollster.get_samples`: `int(mem_info['swap_total'])`. -/
def memorySwapTotalSample (inspector : Inspector ι) (builtins : Builtins) :=
  memoryInfoSample inspector "memory.swap.total" fun v => infoInt builtins v "swap_total"

/-- The `try` block of `MemorySwapFreePollster.get_samples`:
`int(mem_info['swap_total']) - int(mem_info['swap_used'])`. -/
def memorySwapFreeSample (inspector : Inspector ι) (builtins : Builtins) :=
  memoryInfoSample inspector "memory.swap.free" fun v => do
    let total ← infoInt builtins v "swap_total"
    let used ← infoInt builtins v "swap_used"
    return total - used

/-- The `try` block of `MemoryBufferPollster.get_samples`: `int(mem_info['buffer'])`. -/
def memoryBufferSample (inspector : Inspector ι) (builtins : Builtins) :=
  memoryInfoSample inspector "memory.buffer" fun v => infoInt builtins v "buffer"

/-- The `try` block of `MemoryCachedPollster.get_samples`: `int(mem_info['cached'])`. -/
def memoryCachedSample (inspector : Inspector ι) (builtins : Builtins) :=
  memoryInfoSample inspector "memory.cached" fun v => infoInt builtins v "cached"

/-- `MemoryTotalPollster.get_samples`. -/
def memoryTotalPollster (inspector : Inspector ι) (builtins : Builtins) :=
  guardedSamples memoryInfoClauses (memoryTotalSample inspector builtins)

/-- `MemoryUnusedPollster.get_samples`. -/
def memoryUnusedPollster (inspector : Inspector ι) (builtins : Builtins) :=
  guardedSamples memoryInfoClauses (memoryUnusedSample inspector builtins)

/-- `MemorySwapTotalPollster.get_samples`. -/
def memorySwapTotalPollster (inspector : Inspector ι) (builtins : Builtins) :=
  guardedSamples memoryInfoClauses (memorySwapTotalSample inspector builtins)

/-- `MemorySwapFreePollster.get_samples`. -/
def memorySwapFreePollster (inspector : Inspector ι) (builtins : Builtins) :=
  guardedSamples memoryInfoClauses (memorySwapFreeSample inspector builtins)

/-- `MemoryBufferPollster.get_samples`. -/
def memoryBufferPollster (inspector : Inspector ι) (builtins : Builtins) :=
  guardedSamples memoryInfoClauses (memoryBufferSample inspector builtins)

/-- `MemoryCachedPollster.get_samples`. -/
def memoryCachedPollster (inspector : Inspector ι) (builtins : Builtins) :=
  guardedSamples memoryInfoClauses (memoryCachedSample inspector builtins)

end Ceilometer.Compute
