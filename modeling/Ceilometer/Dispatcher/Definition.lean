import Ceilometer.Python

/-!
# Samples and resource definitions

The data the Gnocchi dispatcher reads: metering samples, and the resource
definitions loaded from `gnocchi_resources.yaml` that map metric names to
Gnocchi resource types (`ResourcesDefinition` in `dispatcher/gnocchi.py`).
Metric names are matched against the definitions' patterns with `fnmatch`,
which is modelled here after Python 2.7's `fnmatch.translate` and `re.compile`: a
pattern with a reversed bracket range such as `[z-a]` does not compile, and every
`fnmatch` with it raises `re.error`.
-/

namespace Ceilometer.Dispatcher

/-- A metering sample, as the dict `record_metering_data` receives. -/
structure Sample where
  resourceId : String
  counterName : String
  userId : Value
  projectId : Value
  timestamp : Value
  counterVolume : Value
  resourceMetadata : Dict
  deriving DecidableEq, Repr

/-- One measure of `post_measure`: `{'timestamp': ..., 'value': ...}`. -/
structure Measure where
  timestamp : Value
  value : Value
  deriving DecidableEq, Repr

/-! ### `fnmatch` -/

/-- The pieces of a shell pattern after `fnmatch.translate`. -/
inductive GlobToken where
  | star
  | any
  | lit (c : Char)
  | set (negated : Bool) (ranges : List (Char × Char))
  deriving DecidableEq, Repr

/-- The characters of a bracket set, as ranges: `a-z` is a range unless the dash is last. -/
def setRanges : List Char → List (Char × Char)
  | c :: '-' :: d :: rest => (c, d) :: setRanges rest
  | c :: rest => (c, c) :: setRanges rest
  | [] => []

/-- The body of a bracket set and what follows its closing `]`, or `none` when the
set is not closed: a leading `!` and a `]` right after the opening bracket belong to
the body, as in `fnmatch.translate`. -/
def splitSet (cs : List Char) : Option (List Char × List Char) :=
  let lead := if cs.head? = some '!' then 1 else 0
  let lead := if cs.get? lead = some ']' then lead + 1 else lead
  match (cs.drop lead).findIdx? (· = ']') with
  | none => none
  | some j => some (cs.take (lead + j), cs.drop (lead + j + 1))

/-- `fnmatch.translate`, with the pattern's length as fuel. -/
def translate : Nat → List Char → List GlobToken
  | 0, _ => []
  | _ + 1, [] => []
  | fuel + 1, '*' :: cs => .star :: translate fuel cs
  | fuel + 1, '?' :: cs => .any :: translate fuel cs
  | fuel + 1, '[' :: cs =>
    match splitSet cs with
    | none => .lit '[' :: translate fuel cs
    | some ('!' :: body, rest) => .set true (setRanges body) :: translate fuel rest
    | some (body, rest) => .set false (setRanges body) :: translate fuel rest
  | fuel + 1, c :: cs => .lit c :: translate fuel cs

/-- The translated pattern matches the whole of a name. -/
def matchTokens : List GlobToken → List Char → Bool
  | [], s => s.isEmpty
  | .star :: ts, s => (List.range (s.length + 1)).any fun i => matchTokens ts (s.drop i)
  | .any :: ts, _ :: s => matchTokens ts s
  | .lit c :: ts, c' :: s => c = c' && matchTokens ts s
  | .set negated ranges :: ts, c :: s =>
    ((ranges.any fun r => r.1 ≤ c && c ≤ r.2) != negated) && matchTokens ts s
  | _ :: _, [] => false

/-- `sre_parse` accepts a translated token: on a bracket set it raises
`error("bad character range")` for a range whose end is below its start. -/
def GlobToken.compiles : GlobToken → Bool
  | .set _ ranges => ranges.all fun r => r.1 ≤ r.2
  | _ => true

/-- `re.compile(fnmatch.translate(pattern))` succeeds. -/
def compiles (pattern : String) : Bool :=
  (translate pattern.length pattern.data).all GlobToken.compiles

/-- The compiled pattern matches the whole of the name. -/
def globMatch (name pattern : String) : Bool :=
  matchTokens (translate pattern.length pattern.data) name.data

/-- `fnmatch.fnmatch(name, pattern)` under Python 2.7 on POSIX, where `normcase` is the
identity: `fnmatchcase` compiles the translated pattern, `re.compile` raises `re.error`
on a malformed one, and a failed compilation is not cached, so every call raises. -/
def fnmatch (name pattern : String) : Except PyExc Bool :=
  if compiles pattern then .ok (globMatch name pattern) else .error .reError

theorem fnmatch_of_compiles {pattern : String} (ok : compiles pattern = true) (name : String) :
    fnmatch name pattern = .ok (globMatch name pattern) := by
  simp [fnmatch, ok]

/-- `fnmatch` raises nothing but `re.error`. -/
theorem fnmatch_raises {name pattern : String} {e : PyExc} (raised : fnmatch name pattern = .error e) :
    e = .reError := by
  unfold fnmatch at raised
  split at raised <;> cases raised
  rfl

theorem anyM_fnmatch (name : String) :
    ∀ {ts : List String}, (∀ t ∈ ts, compiles t = true) →
      ts.anyM (fun t => fnmatch name t) = .ok (ts.any fun t => globMatch name t)
  | [], _ => rfl
  | t :: ts, ok => by
    have rest := anyM_fnmatch name fun t' h => ok t' (List.mem_cons_of_mem _ h)
    simp only [List.anyM, fnmatch_of_compiles (ok t (List.mem_cons_self _ _)), List.any_cons]
    cases globMatch name t
    · exact rest
    · rfl

example : fnmatch "disk.read.bytes" "disk.*" = .ok true := rfl
example : fnmatch "instance:m1.tiny" "instance:*" = .ok true := rfl
example : fnmatch "cpu" "disk.*" = .ok false := rfl
example : fnmatch "cpu" "[z-a]*" = .error .reError := rfl

/-! ### Resource definitions -/

/-- One entry of the `resources` list of the definition file: `cfg['resource_type']`, the
patterns `cfg['metrics']`, each attribute's name with the `parse` of its
`declarative.Definition`, `cfg.get('archive_policy')` (`none` when the key is absent), the
truth value of `cfg.get('ignore')`, and `_default_archive_policy`, the dispatcher's
`archive_policy` option. -/
structure ResourcesDefinition where
  resourceType : String
  metricPatterns : List String
  attributeDefs : List (String × (Sample → Value))
  archivePolicy : Option (Option String)
  ignore : Bool
  defaultArchivePolicy : Option String

namespace ResourcesDefinition

/-- `match(metric_name)`: the patterns are tried in order until one matches. -/
def matchMetric (rd : ResourcesDefinition) (metricName : String) : Except PyExc Bool :=
  rd.metricPatterns.anyM fun t => fnmatch metricName t

/-- Every metric pattern of the definition compiles. -/
def Compiles (rd : ResourcesDefinition) : Prop := ∀ t ∈ rd.metricPatterns, compiles t = true

instance (rd : ResourcesDefinition) : Decidable rd.Compiles :=
  inferInstanceAs (Decidable (∀ t ∈ rd.metricPatterns, compiles t = true))

/-- Some pattern of the definition matches the name. -/
def matchesMetric (rd : ResourcesDefinition) (metricName : String) : Bool :=
  rd.metricPatterns.any fun t => globMatch metricName t

/-- `match` raises nothing but `re.error`. -/
theorem matchMetric_raises {rd : ResourcesDefinition} {metricName : String} {e : PyExc}
    (raised : rd.matchMetric metricName = .error e) : e = .reError :=
  let ⟨_, _, raised⟩ := anyM_error raised
  fnmatch_raises raised

theorem matchMetric_of_compiles {rd : ResourcesDefinition} (ok : rd.Compiles) (metricName : String) :
    rd.matchMetric metricName = .ok (rd.matchesMetric metricName) :=
  anyM_fnmatch metricName ok

/-- `attributes(sample)`: the attributes whose parse is not `None`. -/
def attributes (rd : ResourcesDefinition) (sample : Sample) : Dict :=
  rd.attributeDefs.foldl (fun attrs d =>
    let value := d.2 sample
    if value ≠ .none then attrs.setItem d.1 value else attrs) []

/-- The archive policy every metric of the definition gets:
`cfg.get('archive_policy', self._default_archive_policy)`. -/
def archivePolicyName (rd : ResourcesDefinition) : Option String :=
  rd.archivePolicy.getD rd.defaultArchivePolicy

/-- `metrics()`: one entry per pattern, keyed by the pattern itself. -/
def metrics (rd : ResourcesDefinition) : Dict :=
  rd.metricPatterns.foldl (fun metrics t =>
    match rd.archivePolicyName with
    | none => metrics.setItem t (.dict [])
    | some p => metrics.setItem t (.dict [("archive_policy_name", .str p)])) []

end ResourcesDefinition

end Ceilometer.Dispatcher
