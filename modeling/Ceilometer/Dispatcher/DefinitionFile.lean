import Ceilometer.Dispatcher.Definition

/-!
# Loading the resource definitions

`_load_resources_definitions` reads the `resources` list of `gnocchi_resources.yaml` and builds
a `ResourcesDefinition` of each entry, in order. `ResourcesDefinition.__init__` first checks
the entry against `MANDATORY_FIELDS`: each field must be present and an instance of its type,
or `declarative.DefinitionException` is raised with a message naming the field, and with the
entry. It then builds a `declarative.Definition` of each item of `attributes`.

A value of the file is modelled as `yaml.safe_load` returns it (`Yaml`), and a mapping as the
list of its items in iteration order. `MANDATORY_FIELDS` is a dict, so its fields are checked
in the order CPython iterates it; the checks are stated for every order of the fields.

## Main results

- `checkMandatory_ok_iff`: the checks pass exactly when every mandatory field is present with
  its type, whatever the order of the fields.
- `checkMandatory_error`: a failed check raises the error of the first field, in the order,
  that fails: with the entry, and a message that names the field and says `not specified`
  when it is missing, `should be a` and the type otherwise.
- `checkMandatory_eq_of_one`: when one field alone fails, every order raises its error.
- `init_ok_iff`: an entry builds a definition exactly when it passes the checks, its
  attributes build, and its patterns and archive policy are strings or absent; the
  definition then has the entry's type, patterns, attributes, archive policy and `ignore`.
- `init_error`: the mandatory fields are checked before anything else, and an entry that
  passes them never fails on them afterwards.
- `loadResourcesDefinitions_ok_iff`, `loadResourcesDefinitions_error`: loading builds the
  definition of every entry, in file order, or raises what the first failing entry raises.
-/

namespace Ceilometer.Dispatcher

/-- A value of the definitions file, as `yaml.safe_load` returns it: a mapping is the list of
its items, in the order the dict iterates them. -/
inductive Yaml where
  | null
  | bool (b : Bool)
  | int (n : Int)
  | str (s : String)
  | list (items : List Yaml)
  | dict (entries : List (String × Yaml))
  deriving Inhabited, Repr

namespace Yaml

/-- `mapping.get(key)`. -/
def get? : List (String × Yaml) → String → Option Yaml
  | [], _ => none
  | (k, v) :: rest, key => if k = key then some v else get? rest key

/-- Python's truth value. -/
def truthy : Yaml → Bool
  | .null => false
  | .bool b => b
  | .int n => n != 0
  | .str s => !s.isEmpty
  | .list items => !items.isEmpty
  | .dict entries => !entries.isEmpty

end Yaml

/-- The types of `MANDATORY_FIELDS`: `six.string_types`, the tuple `(basestring,)` in
Python 2, and `list`. -/
inductive FieldType where
  | stringTypes
  | list
  deriving DecidableEq, Repr

namespace FieldType

/-- `isinstance(value, field_type)`. -/
def isInstance : FieldType → Yaml → Bool
  | .stringTypes, .str _ => true
  | .list, .list _ => true
  | _, _ => false

/-- How `%(type)s` prints the type: a type object as `<type 'list'>`, and the tuple
`six.string_types` as a tuple. -/
def str : FieldType → String
  | .stringTypes => "(<type 'basestring'>,)"
  | .list => "<type 'list'>"

end FieldType

/-- `ResourcesDefinition.MANDATORY_FIELDS.items()`, in the order CPython 2.7 iterates the dict
on a 64-bit build: `metrics` hashes to slot 0 of its eight slots, `resource_type` to slot 6. -/
def mandatoryFields : List (String × FieldType) :=
  [("metrics", .list), ("resource_type", .stringTypes)]

/-- `declarative.DefinitionException(message, definition_cfg)`. -/
structure DefinitionException where
  message : String
  definitionCfg : List (String × Yaml)

/-- What loading a definition raises: a `declarative.DefinitionException`, from a
mandatory field or an attribute's definition, or an `AttributeError` or `TypeError`, from a
value of the wrong shape. `unmodelled` names a value that `__init__` accepts but a
`ResourcesDefinition` here cannot hold: a metric pattern or an archive policy that is not a
string, or an entry that is not a mapping. -/
inductive LoadError where
  | definition (e : DefinitionException)
  | raised (e : PyExc)
  | unmodelled (field : String)

/-! ### `MANDATORY_FIELDS` -/

section Mandatory

variable (cfg : List (String × Yaml))

/-- One iteration of the loop over `MANDATORY_FIELDS.items()` in `__init__`. -/
def checkField (field : String) (fieldType : FieldType) : Except DefinitionException Unit :=
  match Yaml.get? cfg field with
  | none => .error ⟨"Required field " ++ field ++ " not specified", cfg⟩
  | some value =>
    if fieldType.isInstance value then .ok ()
    else .error ⟨"Required field " ++ field ++ " should be a " ++ fieldType.str, cfg⟩

/-- The loop over `MANDATORY_FIELDS.items()`, in the order given. -/
def checkMandatory : List (String × FieldType) → Except DefinitionException Unit
  | [] => .ok ()
  | (field, fieldType) :: rest =>
    match checkField cfg field fieldType with
    | .ok () => checkMandatory rest
    | .error e => .error e

/-- The entry has the field, with a value of the field's type. -/
def HasField (field : String) (fieldType : FieldType) : Prop :=
  ∃ value, Yaml.get? cfg field = some value ∧ fieldType.isInstance value = true

variable {cfg}

theorem checkField_ok_iff {field : String} {fieldType : FieldType} :
    checkField cfg field fieldType = .ok () ↔ HasField cfg field fieldType := by
  unfold checkField HasField
  cases Yaml.get? cfg field with
  | none => simp
  | some value => by_cases ok : fieldType.isInstance value <;> simp [ok]

/-- A failed check raises with the entry, and names the field: `not specified` when it is
missing, `should be a` with the type when its value has another type. -/
theorem checkField_error {field : String} {fieldType : FieldType} {e : DefinitionException}
    (failed : checkField cfg field fieldType = .error e) :
    e.definitionCfg = cfg ∧
      (Yaml.get? cfg field = none ∧ e.message = "Required field " ++ field ++ " not specified" ∨
        ∃ value, Yaml.get? cfg field = some value ∧ fieldType.isInstance value = false ∧
          e.message = "Required field " ++ field ++ " should be a " ++ fieldType.str) := by
  unfold checkField at failed
  cases found : Yaml.get? cfg field with
  | none =>
    rw [found] at failed
    cases failed
    exact ⟨rfl, .inl ⟨rfl, rfl⟩⟩
  | some value =>
    rw [found] at failed
    dsimp only at failed
    by_cases ok : fieldType.isInstance value
    · rw [if_pos ok] at failed
      cases failed
    · rw [if_neg ok] at failed
      cases failed
      exact ⟨rfl, .inr ⟨value, rfl, Bool.eq_false_iff.mpr ok, rfl⟩⟩

/-- The checks pass exactly when every field is present with its type, in every order. -/
theorem checkMandatory_ok_iff :
    ∀ fields : List (String × FieldType),
      checkMandatory cfg fields = .ok () ↔ ∀ f ∈ fields, HasField cfg f.1 f.2
  | [] => by simp [checkMandatory]
  | (field, fieldType) :: rest => by
    have ih := checkMandatory_ok_iff rest
    simp only [checkMandatory, List.mem_cons, forall_eq_or_imp]
    cases check : checkField cfg field fieldType with
    | ok u => simp [ih, checkField_ok_iff.mp check]
    | error e =>
      have missing : ¬HasField cfg field fieldType := fun has => by
        rw [checkField_ok_iff.mpr has] at check
        cases check
      simp [missing]

/-- A failed check raises the error of the first field, in the order, that fails. -/
theorem checkMandatory_error :
    ∀ {fields : List (String × FieldType)} {e : DefinitionException},
      checkMandatory cfg fields = .error e →
      ∃ pre f post, fields = pre ++ f :: post ∧ (∀ p ∈ pre, HasField cfg p.1 p.2) ∧
        checkField cfg f.1 f.2 = .error e
  | [], _, failed => by cases failed
  | (field, fieldType) :: rest, e, failed => by
    simp only [checkMandatory] at failed
    cases check : checkField cfg field fieldType with
    | error e' =>
      rw [check] at failed
      cases failed
      exact ⟨[], (field, fieldType), rest, rfl, nofun, check⟩
    | ok u =>
      rw [check] at failed
      obtain ⟨pre, f, post, split, passed, first⟩ := checkMandatory_error failed
      refine ⟨(field, fieldType) :: pre, f, post, by rw [split]; rfl, ?_, first⟩
      simpa [checkField_ok_iff.mp check] using passed

/-- When one field alone fails, every order of the fields raises that field's error. -/
theorem checkMandatory_eq_of_one {f : String × FieldType} (failing : ¬HasField cfg f.1 f.2) :
    ∀ {fields : List (String × FieldType)}, f ∈ fields →
      (∀ g ∈ fields, g ≠ f → HasField cfg g.1 g.2) →
      checkMandatory cfg fields = checkField cfg f.1 f.2
  | [], member, _ => absurd member (List.not_mem_nil _)
  | g :: rest, member, others => by
    obtain ⟨field, fieldType⟩ := g
    by_cases same : (field, fieldType) = f
    · subst same
      cases check : checkField cfg field fieldType with
      | ok u => exact absurd (checkField_ok_iff.mp check) failing
      | error e => simp [checkMandatory, check]
    · have passes := others _ (List.mem_cons_self _ _) same
      have later : f ∈ rest := (List.mem_cons.mp member).resolve_left (Ne.symm same)
      simp only [checkMandatory, checkField_ok_iff.mpr passes]
      exact checkMandatory_eq_of_one failing later fun g member => others g (List.mem_cons_of_mem _ member)

end Mandatory

/-- An entry with neither field: CPython 2.7 reports `metrics` first. -/
example : checkMandatory [] mandatoryFields = .error ⟨"Required field metrics not specified", []⟩ :=
  rfl

/-- `six.string_types` prints as a tuple in the message. -/
example : checkMandatory [("metrics", .list []), ("resource_type", .int 1)] mandatoryFields =
    .error ⟨"Required field resource_type should be a (<type 'basestring'>,)",
      [("metrics", .list []), ("resource_type", .int 1)]⟩ :=
  rfl

/-! ### `__init__` -/

/-- The loop over `cfg.get('attributes', {}).items()`: `definition name cfg` is
`declarative.Definition(name, cfg, plugin_manager)`, its parse or what its constructor
raises. -/
def buildAttributes (definition : String → Yaml → Except DefinitionException (Sample → Value)) :
    List (String × Yaml) → Except DefinitionException (List (String × (Sample → Value)))
  | [] => .ok []
  | (name, attrCfg) :: rest =>
    match definition name attrCfg, buildAttributes definition rest with
    | .error e, _ => .error e
    | .ok parse, .ok attributes => .ok ((name, parse) :: attributes)
    | .ok _, .error e => .error e

/-- `self._attributes`: `attributes` defaults to `{}`, and a value with no `items()` raises
`AttributeError`. -/
def attributeDefsOf (cfg : List (String × Yaml))
    (definition : String → Yaml → Except DefinitionException (Sample → Value)) :
    Except LoadError (List (String × (Sample → Value))) :=
  match (Yaml.get? cfg "attributes").getD (.dict []) with
  | .dict entries =>
    match buildAttributes definition entries with
    | .ok attributes => .ok attributes
    | .error e => .error (.definition e)
  | _ => .error (.raised .attributeError)

/-- The patterns of `cfg['metrics']`. -/
def metricPatternsOf : List Yaml → Except LoadError (List String)
  | [] => .ok []
  | .str t :: rest =>
    match metricPatternsOf rest with
    | .ok ts => .ok (t :: ts)
    | .error e => .error e
  | _ :: _ => .error (.unmodelled "metrics")

/-- `cfg.get('archive_policy')`, which `metrics()` reads with the default. -/
def archivePolicyOf (cfg : List (String × Yaml)) : Except LoadError (Option (Option String)) :=
  match Yaml.get? cfg "archive_policy" with
  | none => .ok none
  | some .null => .ok (some none)
  | some (.str p) => .ok (some (some p))
  | some _ => .error (.unmodelled "archive_policy")

/-- The definition that an entry which passed the checks stands for: `cfg['resource_type']`,
the patterns of `cfg['metrics']`, the attributes, `cfg.get('archive_policy')` and the truth
of `cfg.get('ignore')`. The last branch is not reached after the checks. -/
def ResourcesDefinition.ofCfg (cfg : List (String × Yaml)) (defaultArchivePolicy : Option String)
    (attributeDefs : List (String × (Sample → Value))) : Except LoadError ResourcesDefinition :=
  match Yaml.get? cfg "resource_type", Yaml.get? cfg "metrics" with
  | some (.str resourceType), some (.list items) =>
    match metricPatternsOf items, archivePolicyOf cfg with
    | .ok metricPatterns, .ok archivePolicy =>
      .ok ⟨resourceType, metricPatterns, attributeDefs, archivePolicy,
        ((Yaml.get? cfg "ignore").getD .null).truthy, defaultArchivePolicy⟩
    | .error e, _ => .error e
    | .ok _, .error e => .error e
  | _, _ => .error (.unmodelled "MANDATORY_FIELDS")

/-- `ResourcesDefinition(definition_cfg, default_archive_policy, plugin_manager)`. -/
def ResourcesDefinition.init (definitionCfg : List (String × Yaml)) (defaultArchivePolicy : Option String)
    (definition : String → Yaml → Except DefinitionException (Sample → Value)) :
    Except LoadError ResourcesDefinition :=
  match checkMandatory definitionCfg mandatoryFields with
  | .error e => .error (.definition e)
  | .ok () =>
    match attributeDefsOf definitionCfg definition with
    | .error e => .error e
    | .ok attributeDefs => ResourcesDefinition.ofCfg definitionCfg defaultArchivePolicy attributeDefs

/-- One entry of the `resources` list: a mapping is a definition's cfg; `in` on `None`, a
bool or an int raises `TypeError`. -/
def initEntry (archivePolicy : Option String)
    (definition : String → Yaml → Except DefinitionException (Sample → Value)) :
    Yaml → Except LoadError ResourcesDefinition
  | .dict cfg => ResourcesDefinition.init cfg archivePolicy definition
  | .null | .bool _ | .int _ => .error (.raised .typeError)
  | .str _ | .list _ => .error (.unmodelled "resources")

/-- The list comprehension of `_load_resources_definitions`, in order. -/
def initAll (archivePolicy : Option String)
    (definition : String → Yaml → Except DefinitionException (Sample → Value)) :
    List Yaml → Except LoadError (List ResourcesDefinition)
  | [] => .ok []
  | r :: rest =>
    match initEntry archivePolicy definition r, initAll archivePolicy definition rest with
    | .error e, _ => .error e
    | .ok rd, .ok rds => .ok (rd :: rds)
    | .ok _, .error e => .error e

/-- `_load_resources_definitions`, given the file's contents `data` and the dispatcher's
`archive_policy` option: `data.get('resources', [])`, which must be a list. -/
def loadResourcesDefinitions (data : List (String × Yaml)) (archivePolicy : Option String)
    (definition : String → Yaml → Except DefinitionException (Sample → Value)) :
    Except LoadError (List ResourcesDefinition) :=
  match (Yaml.get? data "resources").getD (.list []) with
  | .list entries => initAll archivePolicy definition entries
  | .null | .bool _ | .int _ => .error (.raised .typeError)
  | .str _ | .dict _ => .error (.unmodelled "resources")

/-! ### What `__init__` builds -/

theorem map_str_inj {ps qs : List String} : ps.map Yaml.str = qs.map Yaml.str ↔ ps = qs :=
  (List.map_injective_iff.mpr fun _ _ same => Yaml.str.inj same).eq_iff

/-- The patterns are the items of `cfg['metrics']`, when these are strings. -/
theorem metricPatternsOf_ok_iff : ∀ (items : List Yaml) (patterns : List String),
    metricPatternsOf items = .ok patterns ↔ items = patterns.map .str
  | [], patterns => by cases patterns <;> simp [metricPatternsOf]
  | .str t :: rest, patterns => by
    simp only [metricPatternsOf]
    cases h : metricPatternsOf rest with
    | ok ts =>
      rw [(metricPatternsOf_ok_iff rest ts).mp h]
      cases patterns <;> simp [map_str_inj]
    | error e =>
      cases patterns with
      | nil => simp
      | cons p ps =>
        simp only [reduceCtorEq, false_iff, List.map_cons, List.cons.injEq, not_and]
        exact fun _ same => by rw [(metricPatternsOf_ok_iff rest ps).mpr same] at h; cases h
  | .null :: _, patterns | .bool _ :: _, patterns | .int _ :: _, patterns | .list _ :: _, patterns
  | .dict _ :: _, patterns => by cases patterns <;> simp [metricPatternsOf]

theorem metricPatternsOf_error {items : List Yaml} {e : LoadError} (failed : metricPatternsOf items = .error e) :
    e = .unmodelled "metrics" := by
  induction items with
  | nil => cases failed
  | cons item rest ih =>
    cases item <;> simp only [metricPatternsOf] at failed <;> try (cases failed; rfl)
    split at failed
    · cases failed
    · cases failed
      exact ih ‹_›

theorem archivePolicyOf_error {cfg : List (String × Yaml)} {e : LoadError}
    (failed : archivePolicyOf cfg = .error e) : e = .unmodelled "archive_policy" := by
  unfold archivePolicyOf at failed
  split at failed <;> cases failed
  rfl

section Init

variable {cfg : List (String × Yaml)} {defaultArchivePolicy : Option String}
  {definition : String → Yaml → Except DefinitionException (Sample → Value)}

theorem ofCfg_ok_iff {attributeDefs : List (String × (Sample → Value))} {rd : ResourcesDefinition} :
    ResourcesDefinition.ofCfg cfg defaultArchivePolicy attributeDefs = .ok rd ↔
      Yaml.get? cfg "resource_type" = some (.str rd.resourceType) ∧
      Yaml.get? cfg "metrics" = some (.list (rd.metricPatterns.map .str)) ∧
      archivePolicyOf cfg = .ok rd.archivePolicy ∧ rd.attributeDefs = attributeDefs ∧
      rd.ignore = ((Yaml.get? cfg "ignore").getD .null).truthy ∧
      rd.defaultArchivePolicy = defaultArchivePolicy := by
  unfold ResourcesDefinition.ofCfg
  split
  · rename_i resourceType items typeOf metricsOf
    rw [typeOf, metricsOf]
    cases patterns : metricPatternsOf items with
    | error e =>
      simp only [reduceCtorEq, false_iff, Option.some.injEq, Yaml.str.injEq, Yaml.list.injEq, not_and]
      exact fun _ same => by rw [(metricPatternsOf_ok_iff _ _).mpr same] at patterns; cases patterns
    | ok metricPatterns =>
      rw [(metricPatternsOf_ok_iff _ _).mp patterns]
      cases policy : archivePolicyOf cfg with
      | error e => simp
      | ok archivePolicy =>
        obtain ⟨rt, ps, attrs, ap, ignore, default⟩ := rd
        simp only [Except.ok.injEq, ResourcesDefinition.mk.injEq, Option.some.injEq, Yaml.str.injEq,
          Yaml.list.injEq, map_str_inj]
        constructor <;> rintro ⟨rfl, rfl, rfl, rfl, rfl, rfl⟩ <;> exact ⟨rfl, rfl, rfl, rfl, rfl, rfl⟩
  · rename_i unreached
    simp only [reduceCtorEq, false_iff, not_and]
    exact fun typeOf metricsOf => (unreached _ _ typeOf metricsOf).elim

/-- An entry builds a definition exactly when it passes the checks, its attributes build,
and its patterns and archive policy are strings or absent; the definition then holds the
entry's type, patterns, attributes, archive policy and `ignore`. -/
theorem init_ok_iff {rd : ResourcesDefinition} :
    ResourcesDefinition.init cfg defaultArchivePolicy definition = .ok rd ↔
      (∀ f ∈ mandatoryFields, HasField cfg f.1 f.2) ∧
      attributeDefsOf cfg definition = .ok rd.attributeDefs ∧
      Yaml.get? cfg "resource_type" = some (.str rd.resourceType) ∧
      Yaml.get? cfg "metrics" = some (.list (rd.metricPatterns.map .str)) ∧
      archivePolicyOf cfg = .ok rd.archivePolicy ∧
      rd.ignore = ((Yaml.get? cfg "ignore").getD .null).truthy ∧
      rd.defaultArchivePolicy = defaultArchivePolicy := by
  unfold ResourcesDefinition.init
  rw [← checkMandatory_ok_iff]
  cases check : checkMandatory cfg mandatoryFields with
  | error e => simp
  | ok u =>
    cases attributes : attributeDefsOf cfg definition with
    | error e => simp
    | ok attributeDefs =>
      simp only [ofCfg_ok_iff, Except.ok.injEq, true_and]
      constructor
      · rintro ⟨typeOf, metricsOf, policy, rfl, rest⟩
        exact ⟨rfl, typeOf, metricsOf, policy, rest⟩
      · rintro ⟨rfl, typeOf, metricsOf, policy, rest⟩
        exact ⟨typeOf, metricsOf, policy, rfl, rest⟩

/-- What `__init__` raises: the error of the first failing mandatory field, before anything
else; otherwise what building the attributes raises, or an unmodelled pattern or archive
policy, never a missing or mistyped mandatory field. -/
theorem init_error {e : LoadError} (failed : ResourcesDefinition.init cfg defaultArchivePolicy definition = .error e) :
    (∃ e', checkMandatory cfg mandatoryFields = .error e' ∧ e = .definition e') ∨
      ((∀ f ∈ mandatoryFields, HasField cfg f.1 f.2) ∧
        (attributeDefsOf cfg definition = .error e ∨ e = .unmodelled "metrics" ∨
          e = .unmodelled "archive_policy")) := by
  unfold ResourcesDefinition.init at failed
  cases check : checkMandatory cfg mandatoryFields with
  | error e' =>
    rw [check] at failed
    cases failed
    exact .inl ⟨e', rfl, rfl⟩
  | ok u =>
    have passed := (checkMandatory_ok_iff mandatoryFields).mp check
    rw [check] at failed
    dsimp only at failed
    refine .inr ⟨passed, ?_⟩
    cases attributes : attributeDefsOf cfg definition with
    | error e' => rw [attributes] at failed; cases failed; exact .inl rfl
    | ok attributeDefs =>
      rw [attributes] at failed
      dsimp only at failed
      obtain ⟨typeValue, typeOf, isStr⟩ := passed ("resource_type", .stringTypes) (by simp [mandatoryFields])
      obtain ⟨metricsValue, metricsOf, isList⟩ := passed ("metrics", .list) (by simp [mandatoryFields])
      cases typeValue <;> cases isStr
      cases metricsValue <;> cases isList
      dsimp only at typeOf metricsOf
      unfold ResourcesDefinition.ofCfg at failed
      rw [typeOf, metricsOf] at failed
      dsimp only at failed
      split at failed
      · cases failed
      · cases failed; exact .inr (.inl (metricPatternsOf_error ‹_›))
      · cases failed; exact .inr (.inr (archivePolicyOf_error ‹_›))

end Init

/-! ### `_load_resources_definitions` -/

section Load

variable {archivePolicy : Option String} {definition : String → Yaml → Except DefinitionException (Sample → Value)}

theorem initAll_ok_iff : ∀ {entries : List Yaml} {rds : List ResourcesDefinition},
    initAll archivePolicy definition entries = .ok rds ↔
      entries.map (initEntry archivePolicy definition) = rds.map .ok
  | [], rds => by cases rds <;> simp [initAll]
  | r :: rest, rds => by
    simp only [initAll, List.map_cons]
    cases entry : initEntry archivePolicy definition r with
    | error e => cases rds <;> simp
    | ok rd =>
      cases others : initAll archivePolicy definition rest with
      | error e =>
        cases rds with
        | nil => simp
        | cons rd' rds =>
          simp only [reduceCtorEq, false_iff, List.map_cons, List.cons.injEq, not_and]
          exact fun _ all => by rw [initAll_ok_iff.mpr all] at others; cases others
      | ok rds' =>
        rw [initAll_ok_iff.mp others]
        cases rds <;> simp [List.map_injective_iff.mpr (fun _ _ same => Except.ok.inj same) |>.eq_iff]

/-- Loading stops at the first entry that fails, with what that entry raises. -/
theorem initAll_error : ∀ {entries : List Yaml} {e : LoadError},
    initAll archivePolicy definition entries = .error e →
    ∃ pre r post, entries = pre ++ r :: post ∧
      (∀ p ∈ pre, ∃ rd, initEntry archivePolicy definition p = .ok rd) ∧
      initEntry archivePolicy definition r = .error e
  | [], _, failed => by cases failed
  | r :: rest, e, failed => by
    simp only [initAll] at failed
    cases entry : initEntry archivePolicy definition r with
    | error e' =>
      rw [entry] at failed
      cases failed
      exact ⟨[], r, rest, rfl, nofun, entry⟩
    | ok rd =>
      rw [entry] at failed
      cases others : initAll archivePolicy definition rest with
      | ok rds => rw [others] at failed; cases failed
      | error e' =>
        rw [others] at failed
        cases failed
        obtain ⟨pre, r', post, split, built, first⟩ := initAll_error others
        refine ⟨r :: pre, r', post, by rw [split]; rfl, ?_, first⟩
        simpa using ⟨⟨rd, entry⟩, built⟩

/-- Loading builds a definition of every entry of `resources`, in file order. -/
theorem loadResourcesDefinitions_ok_iff {data : List (String × Yaml)} {rds : List ResourcesDefinition} :
    loadResourcesDefinitions data archivePolicy definition = .ok rds ↔
      ∃ entries, (Yaml.get? data "resources").getD (.list []) = .list entries ∧
        entries.map (initEntry archivePolicy definition) = rds.map .ok := by
  unfold loadResourcesDefinitions
  split <;> simp_all [initAll_ok_iff]

/-- A load that fails raises what its first failing entry raises, or `resources` is not a
list. -/
theorem loadResourcesDefinitions_error {data : List (String × Yaml)} {e : LoadError}
    (failed : loadResourcesDefinitions data archivePolicy definition = .error e) :
    (∃ entries, (Yaml.get? data "resources").getD (.list []) = .list entries ∧
      ∃ pre r post, entries = pre ++ r :: post ∧
        (∀ p ∈ pre, ∃ rd, initEntry archivePolicy definition p = .ok rd) ∧
        initEntry archivePolicy definition r = .error e) ∨
      ∀ entries, (Yaml.get? data "resources").getD (.list []) ≠ .list entries := by
  unfold loadResourcesDefinitions at failed
  split at failed
  · exact .inl ⟨_, ‹_›, initAll_error failed⟩
  all_goals exact .inr fun _ same => by simp_all

end Load

end Ceilometer.Dispatcher
