import Mathlib.Data.List.Basic

/-!
# Python values, dicts and exceptions

The modelled code passes samples, resource bodies and archive policies around as
Python dicts. A `Dict` is a list of key/value pairs with the semantics of the
Python operations the code uses: `d[k]`, `d.get(k)`, `d[k] = v`, `d.update(e)` and
`del d[k]`. Values are the scalars the code handles plus nested dicts, which is
what makes a value unhashable.
-/

namespace Ceilometer

/-- A Python value as the modelled code sees it. A float is held as its IEEE 754 binary64
bits: the code only passes floats along, so their equality is that of the bits. -/
inductive Value where
  | none
  | bool (b : Bool)
  | int (n : Int)
  | float (bits : UInt64)
  | str (s : String)
  | dict (entries : List (String × Value))
  deriving Repr, Inhabited

mutual
/-- Structural equality on values, recursing into nested dicts. -/
def Value.decEq : (a b : Value) → Decidable (a = b)
  | .none, .none => isTrue rfl
  | .bool a, .bool b =>
    if h : a = b then isTrue (h ▸ rfl) else isFalse (by intro e; cases e; exact h rfl)
  | .int a, .int b =>
    if h : a = b then isTrue (h ▸ rfl) else isFalse (by intro e; cases e; exact h rfl)
  | .float a, .float b =>
    if h : a = b then isTrue (h ▸ rfl) else isFalse (by intro e; cases e; exact h rfl)
  | .str a, .str b =>
    if h : a = b then isTrue (h ▸ rfl) else isFalse (by intro e; cases e; exact h rfl)
  | .dict a, .dict b =>
    match Value.decEqEntries a b with
    | isTrue h => isTrue (h ▸ rfl)
    | isFalse h => isFalse (by intro e; cases e; exact h rfl)
  | .none, .bool _ | .none, .int _ | .none, .float _ | .none, .str _ | .none, .dict _
  | .bool _, .none | .bool _, .int _ | .bool _, .float _ | .bool _, .str _ | .bool _, .dict _
  | .int _, .none | .int _, .bool _ | .int _, .float _ | .int _, .str _ | .int _, .dict _
  | .float _, .none | .float _, .bool _ | .float _, .int _ | .float _, .str _ | .float _, .dict _
  | .str _, .none | .str _, .bool _ | .str _, .int _ | .str _, .float _ | .str _, .dict _
  | .dict _, .none | .dict _, .bool _ | .dict _, .int _ | .dict _, .float _ | .dict _, .str _ =>
    isFalse (by intro e; cases e)

/-- Structural equality on the entries of a nested dict. -/
def Value.decEqEntries : (a b : List (String × Value)) → Decidable (a = b)
  | [], [] => isTrue rfl
  | (k, v) :: a, (k', v') :: b =>
    if hk : k = k' then
      match Value.decEq v v', Value.decEqEntries a b with
      | isTrue hv, isTrue ht => isTrue (by subst hk hv ht; rfl)
      | isFalse hv, _ => isFalse (by intro e; cases e; exact hv rfl)
      | _, isFalse ht => isFalse (by intro e; cases e; exact ht rfl)
    else isFalse (by intro e; cases e; exact hk rfl)
  | [], _ :: _ | _ :: _, [] => isFalse (by intro e; cases e)
end

instance : DecidableEq Value := Value.decEq

/-- `hash(v)` succeeds on scalars and raises `TypeError` on a dict. -/
def Value.hashable : Value → Bool
  | .dict _ => false
  | _ => true

/-- The exception classes the modelled code raises or catches. The first four are
`gnocchi_client`'s; `reError` is `re.error`, which `re.compile` raises on a malformed
pattern; `ceilometerNotImplementedError` is ceilometer's subclass of the built-in
`NotImplementedError`; the next four are `virt_inspector`'s; `other` is any other
subclass of `Exception`, by name. -/
inductive PyExc where
  | noSuchMetric
  | resourceAlreadyExists
  | metricAlreadyExists
  | unexpectedError
  | keyError (key : String)
  | typeError
  | indexError
  | attributeError
  | valueError
  | reError
  | notImplementedError
  | ceilometerNotImplementedError
  | instanceNotFound
  | instanceShutOff
  | noData
  | instanceNoQGA
  | other (name : String)
  deriving DecidableEq, Repr

/-- A Python dict, as its list of items. Every dict the code builds has distinct keys. -/
abbrev Dict := List (String × Value)

namespace Dict

/-- `d.get(key)`: the value stored under `key`, if any. -/
def get? : Dict → String → Option Value
  | [], _ => none
  | (k, v) :: d, key => if k = key then some v else get? d key

/-- `d[key]`, raising `KeyError` when the key is missing. -/
def getItem (d : Dict) (key : String) : Except PyExc Value :=
  match d.get? key with
  | some v => .ok v
  | none => .error (.keyError key)

/-- `d[key] = v`: replace the entry in place, or append a new one. -/
def setItem : Dict → String → Value → Dict
  | [], key, v => [(key, v)]
  | (k, w) :: d, key, v => if k = key then (key, v) :: d else (k, w) :: setItem d key v

/-- `d.update(e)`: set every item of `e`, in order. -/
def update (d e : Dict) : Dict := e.foldl (fun acc kv => acc.setItem kv.1 kv.2) d

/-- `del d[key]` on a dict whose keys are distinct. -/
def delItem (d : Dict) (key : String) : Dict := d.filter fun kv => kv.1 ≠ key

@[simp] theorem get?_nil (key : String) : get? [] key = none := rfl

@[simp] theorem get?_cons (k key : String) (v : Value) (d : Dict) :
    get? ((k, v) :: d) key = if k = key then some v else get? d key := rfl

@[simp] theorem get?_setItem (d : Dict) (k key : String) (v : Value) :
    (d.setItem k v).get? key = if k = key then some v else d.get? key := by
  induction d with
  | nil => simp [setItem]
  | cons kw d ih =>
    obtain ⟨k', w⟩ := kw
    by_cases same : k' = k
    · subst same; by_cases h : k' = key <;> simp [setItem, h]
    · simp only [setItem, same, if_false, get?_cons, ih]
      by_cases h : k' = key <;> by_cases h' : k = key <;> simp_all

theorem get?_append (d e : Dict) (key : String) :
    get? (d ++ e) key = (get? d key).or (get? e key) := by
  induction d with
  | nil => simp
  | cons kv d ih =>
    obtain ⟨k, v⟩ := kv
    by_cases h : k = key <;> simp [h, ih]

/-- After `d.update(e)` a key holds its last value in `e`, or else its value in `d`. -/
@[simp] theorem get?_update (d e : Dict) (key : String) :
    (d.update e).get? key = (get? e.reverse key).or (d.get? key) := by
  induction e generalizing d with
  | nil => simp [update]
  | cons kv e ih =>
    obtain ⟨k, v⟩ := kv
    simp only [update, List.foldl_cons] at ih ⊢
    rw [ih, List.reverse_cons, get?_append, Option.or_assoc, get?_setItem]
    by_cases h : k = key <;> simp [h]

@[simp] theorem get?_delItem (d : Dict) (k key : String) :
    (d.delItem k).get? key = if k = key then none else d.get? key := by
  induction d with
  | nil => simp [delItem]
  | cons kv d ih =>
    obtain ⟨k', w⟩ := kv
    simp only [delItem] at ih ⊢
    by_cases h : k' = k
    · subst h; by_cases h' : k' = key <;> simp_all
    · by_cases h' : k' = key
      · subst h'; simp [h, ih, Ne.symm h]
      · simp_all

@[simp] theorem getItem_eq_ok (d : Dict) (key : String) (v : Value) :
    d.getItem key = .ok v ↔ d.get? key = some v := by
  unfold getItem; split <;> simp_all

theorem mem_of_get? {d : Dict} {key : String} {v : Value} (found : d.get? key = some v) :
    (key, v) ∈ d := by
  induction d with
  | nil => cases found
  | cons kw d ih =>
    obtain ⟨k, w⟩ := kw
    by_cases h : k = key
    · subst h; simp_all
    · simp only [get?_cons, h, if_false] at found
      exact List.mem_cons_of_mem _ (ih found)

theorem mem_setItem {d : Dict} {k : String} {v : Value} {kv : String × Value}
    (member : kv ∈ d.setItem k v) : kv ∈ d ∨ kv = (k, v) := by
  induction d with
  | nil => simpa [setItem] using member
  | cons kw d ih =>
    obtain ⟨k', w⟩ := kw
    by_cases same : k' = k
    · simp only [setItem, same, if_true, List.mem_cons] at member
      rcases member with rfl | member
      · exact .inr rfl
      · exact .inl (List.mem_cons_of_mem _ member)
    · simp only [setItem, same, if_false, List.mem_cons] at member
      rcases member with rfl | member
      · exact .inl (List.mem_cons_self _ _)
      · exact (ih member).imp_left (List.mem_cons_of_mem _)

theorem get?_eq_none {d : Dict} {key : String} (absent : ∀ kv ∈ d, kv.1 ≠ key) : d.get? key = none := by
  induction d with
  | nil => rfl
  | cons kv d ih =>
    obtain ⟨k, v⟩ := kv
    simp only [get?_cons, absent (k, v) (List.mem_cons_self _ _), if_false]
    exact ih fun kv member => absent kv (List.mem_cons_of_mem _ member)

/-- Every item of `d.update(e)` is an item of `d` or of `e`. -/
theorem mem_update {d e : Dict} {kv : String × Value} (member : kv ∈ d.update e) :
    kv ∈ d ∨ kv ∈ e := by
  induction e generalizing d with
  | nil => exact .inl member
  | cons kv' e ih =>
    rcases ih member with member | member
    · rcases mem_setItem member with member | rfl
      · exact .inl member
      · exact .inr (List.mem_cons_self _ _)
    · exact .inr (List.mem_cons_of_mem _ member)

/-- `d[key] = v` keeps the keys of a dict distinct. -/
theorem nodup_setItem {d : Dict} (nodup : (d.map Prod.fst).Nodup) (k : String) (v : Value) :
    ((d.setItem k v).map Prod.fst).Nodup := by
  induction d with
  | nil => simp [setItem]
  | cons kw d ih =>
    obtain ⟨k', w⟩ := kw
    rw [List.map_cons, List.nodup_cons] at nodup
    by_cases same : k' = k
    · simpa [setItem, same] using nodup
    · simp only [setItem, same, if_false, List.map_cons, List.nodup_cons]
      refine ⟨fun member => ?_, ih nodup.2⟩
      obtain ⟨kv, kvIn, kvKey⟩ := List.mem_map.mp member
      rcases mem_setItem kvIn with old | rfl
      · have key : kv.1 ∈ d.map Prod.fst := List.mem_map_of_mem _ old
        rw [kvKey] at key
        exact nodup.1 key
      · exact same kvKey.symm

theorem nodup_update {d : Dict} (nodup : (d.map Prod.fst).Nodup) (e : Dict) :
    ((d.update e).map Prod.fst).Nodup := by
  induction e generalizing d with
  | nil => exact nodup
  | cons kv e ih => exact ih (nodup_setItem nodup kv.1 kv.2)

/-- On a dict with distinct keys, the last entry of a key is its only one. -/
theorem get?_reverse {d : Dict} (nodup : (d.map Prod.fst).Nodup) (key : String) :
    get? d.reverse key = get? d key := by
  induction d with
  | nil => rfl
  | cons kv d ih =>
    obtain ⟨k, v⟩ := kv
    rw [List.map_cons, List.nodup_cons] at nodup
    rw [List.reverse_cons, get?_append, ih nodup.2, get?_cons, get?_cons, get?_nil]
    by_cases same : k = key
    · subst same
      have absent : ∀ kv ∈ d, kv.1 ≠ k := fun kv member same => by
        have key : kv.1 ∈ d.map Prod.fst := List.mem_map_of_mem _ member
        rw [same] at key
        exact nodup.1 key
      rw [get?_eq_none absent]
      simp
    · simp [same]

/-- `d == e` on dicts: every key has the same value in both, whatever the order of the
items. -/
def SameItems (d e : Dict) : Prop := ∀ key, d.get? key = e.get? key

/-- It is enough to compare the keys either dict has. -/
theorem sameItems_iff_all {d e : Dict} :
    ((d ++ e).all fun kv => d.get? kv.1 = e.get? kv.1) = true ↔ SameItems d e := by
  refine ⟨fun all key => ?_, fun same => List.all_eq_true.mpr fun kv _ => by simp [same kv.1]⟩
  by_cases present : ∃ kv ∈ d ++ e, kv.1 = key
  · obtain ⟨kv, member, rfl⟩ := present
    simpa using List.all_eq_true.mp all kv member
  · have absent : ∀ kv ∈ d ++ e, kv.1 ≠ key := fun kv member same => present ⟨kv, member, same⟩
    rw [get?_eq_none fun kv m => absent kv (List.mem_append_left _ m),
      get?_eq_none fun kv m => absent kv (List.mem_append_right _ m)]

instance (d e : Dict) : Decidable (SameItems d e) := decidable_of_iff _ sameItems_iff_all

end Dict

/-! ### Loops that may raise

Python loops over a list whose body may raise are core's `anyM`, `findM?` and `filterM`
(the list comprehension with a condition) in `Except`. -/

instance instDecidableEqExcept {ε α : Type} [DecidableEq ε] [DecidableEq α] :
    DecidableEq (Except ε α)
  | .ok a, .ok b => decidable_of_iff (a = b) ⟨congrArg _, Except.ok.inj⟩
  | .error e, .error e' => decidable_of_iff (e = e') ⟨congrArg _, Except.error.inj⟩
  | .ok _, .error _ => isFalse nofun
  | .error _, .ok _ => isFalse nofun

section Loops

variable {ε α : Type} {p : α → Except ε Bool}

theorem filterAuxM_ok {q : α → Bool} :
    ∀ {l : List α} (acc : List α), (∀ x ∈ l, p x = .ok (q x)) →
      l.filterAuxM p acc = .ok ((l.filter q).reverse ++ acc)
  | [], acc, _ => rfl
  | x :: l, acc, ok => by
    have step : (x :: l).filterAuxM p acc = l.filterAuxM p (cond (q x) (x :: acc) acc) := by
      simp only [List.filterAuxM, ok x (List.mem_cons_self _ _)]
      rfl
    rw [step, filterAuxM_ok _ fun y h => ok y (List.mem_cons_of_mem _ h)]
    cases hq : q x <;> simp [List.filter_cons, hq]

/-- A condition that returns on every item filters as `List.filter`. -/
theorem filterM_ok {q : α → Bool} {l : List α} (ok : ∀ x ∈ l, p x = .ok (q x)) :
    l.filterM p = .ok (l.filter q) := by
  simp only [List.filterM, filterAuxM_ok [] ok, List.append_nil]
  show Except.ok (l.filter q).reverse.reverse = _
  rw [List.reverse_reverse]

theorem filterAuxM_error : ∀ {l acc : List α} {e : ε}, l.filterAuxM p acc = .error e →
    ∃ x ∈ l, p x = .error e
  | [], _, _, h => by cases h
  | x :: l, acc, e, h => by
    cases hx : p x with
    | error e' =>
      simp only [List.filterAuxM, hx] at h
      cases h
      exact ⟨x, List.mem_cons_self _ _, hx⟩
    | ok b =>
      simp only [List.filterAuxM, hx] at h
      obtain ⟨y, hy, raised⟩ := filterAuxM_error h
      exact ⟨y, List.mem_cons_of_mem _ hy, raised⟩

/-- What a comprehension raises, its condition raised on some item. -/
theorem filterM_error {l : List α} {e : ε} (h : l.filterM p = .error e) : ∃ x ∈ l, p x = .error e := by
  cases hAux : l.filterAuxM p [] with
  | error e' =>
    simp only [List.filterM, hAux] at h
    cases h
    exact filterAuxM_error hAux
  | ok kept => simp only [List.filterM, hAux] at h; cases h

/-- A condition that raises only `E` makes the comprehension raise `E` as soon as it
raises on one item. -/
theorem filterAuxM_of_raises {E : ε} (only : ∀ x e, p x = .error e → e = E) :
    ∀ {l : List α} (acc : List α), (∃ x ∈ l, ∃ e, p x = .error e) → l.filterAuxM p acc = .error E
  | [], _, ⟨_, h, _⟩ => absurd h (List.not_mem_nil _)
  | x :: l, acc, ⟨y, hy, raises⟩ => by
    cases hx : p x with
    | error e => simp only [List.filterAuxM, hx, only x e hx]; rfl
    | ok b =>
      have later : ∃ z ∈ l, ∃ e, p z = .error e := by
        rcases List.mem_cons.mp hy with rfl | hy
        · obtain ⟨e, he⟩ := raises
          rw [hx] at he
          cases he
        · exact ⟨y, hy, raises⟩
      simp only [List.filterAuxM, hx]
      exact filterAuxM_of_raises only _ later

theorem filterM_of_raises {E : ε} (only : ∀ x e, p x = .error e → e = E) {l : List α}
    (raises : ∃ x ∈ l, ∃ e, p x = .error e) : l.filterM p = .error E := by
  simp only [List.filterM, filterAuxM_of_raises only [] raises]
  rfl

theorem anyM_error : ∀ {l : List α} {e : ε}, l.anyM p = .error e → ∃ x ∈ l, p x = .error e
  | [], _, h => by cases h
  | x :: l, e, h => by
    cases hx : p x with
    | error e' =>
      simp only [List.anyM, hx] at h
      cases h
      exact ⟨x, List.mem_cons_self _ _, hx⟩
    | ok b =>
      simp only [List.anyM, hx] at h
      cases b
      · obtain ⟨y, hy, raised⟩ := anyM_error h
        exact ⟨y, List.mem_cons_of_mem _ hy, raised⟩
      · cases h

/-- A search whose test returns on every item is `List.find?`. -/
theorem findM?_ok {q : α → Bool} : ∀ {l : List α}, (∀ x ∈ l, p x = .ok (q x)) →
    l.findM? p = .ok (l.find? q)
  | [], _ => rfl
  | x :: l, ok => by
    have rest := findM?_ok (l := l) fun y h => ok y (List.mem_cons_of_mem _ h)
    simp only [List.findM?, ok x (List.mem_cons_self _ _), List.find?_cons]
    cases q x
    · exact rest
    · rfl

/-- What a search finds is an item of the list. -/
theorem mem_of_findM? : ∀ {l : List α} {x : α}, l.findM? p = .ok (some x) → x ∈ l
  | [], _, h => by cases h
  | y :: l, x, h => by
    cases hy : p y with
    | error e => simp only [List.findM?, hy] at h; cases h
    | ok b =>
      simp only [List.findM?, hy] at h
      cases b
      · exact List.mem_cons_of_mem _ (mem_of_findM? h)
      · cases h
        exact List.mem_cons_self _ _

end Loops

/-! ### Statements -/

section Statements

variable {ε σ α β : Type}

theorem bind_apply (x : EStateM ε σ α) (f : α → EStateM ε σ β) (s : σ) :
    (x >>= f) s = match x s with
      | .ok a s => f a s
      | .error e s => .error e s := rfl

@[simp] theorem pure_apply (a : α) (s : σ) : (pure a : EStateM ε σ α) s = .ok a s := rfl

@[simp] theorem throw_apply (e : ε) (s : σ) : (throw e : EStateM ε σ α) s = .error e s := rfl

/-- `try`/`except` keeps the effects of the body when it raises. -/
theorem tryCatch_apply (x : EStateM ε σ α) (h : ε → EStateM ε σ α) (s : σ) :
    tryCatch x h s = match x s with
      | .ok a s => .ok a s
      | .error e s => h e s := by
  show EStateM.tryCatch x h s = _
  cases hx : x s <;> simp only [EStateM.tryCatch, hx]
  rfl

/-- The exception a Python statement run in `EStateM` raised, if it raised one. -/
def raised : EStateM.Result ε σ α → Option ε
  | .ok _ _ => none
  | .error e _ => some e

/-- The state a statement left, whether it returned or raised. -/
def final : EStateM.Result ε σ α → σ
  | .ok _ s => s
  | .error _ s => s

/-- What a statement returned or raised. -/
def outcome : EStateM.Result ε σ α → Except ε α
  | .ok a _ => .ok a
  | .error e _ => .error e

@[simp] theorem outcome_ok (a : α) (s : σ) : outcome (.ok a s : EStateM.Result ε σ α) = .ok a := rfl

@[simp] theorem outcome_error (e : ε) (s : σ) :
    outcome (.error e s : EStateM.Result ε σ α) = .error e := rfl

end Statements

end Ceilometer
