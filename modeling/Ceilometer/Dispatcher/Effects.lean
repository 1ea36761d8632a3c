import Ceilometer.Dispatcher.Batch

/-!
# What a statement of the dispatcher may do

`Confined Inv made allowed x`: run from any state whose backend satisfies `Inv`, `x`
appends to the call log only calls that `made` accepts, raises only exceptions that
`allowed` accepts, and leaves a backend that satisfies `Inv`. Each function of the
dispatcher gets one such lemma, built from the lemmas of what it calls
(`Confined.bind`, `Confined.tryCatch`), under what it needs of the backend and of the
resource dict; a caller cites the lemma and never unfolds the callee.

The backend is assumed to keep the Gnocchi client's contract (`Call.expected`) in the
states of `Inv`, and to keep `Inv`: each call raises only the exception its `except`
clause names, or `UnexpectedError`. With `Inv` true this is an assumption on every
state; a store is covered by an invariant that its calls keep.
-/

namespace Ceilometer.Dispatcher

/-- Whether a call posts measures. -/
def Call.isPost : Call → Bool
  | .postMeasure .. => true
  | _ => false

/-- The id of the resource a call is about. -/
def Call.resourceId : Call → Value
  | .postMeasure _ resourceId _ _ => .str resourceId
  | .createResource _ resource => (resource.get? "id").getD .none
  | .createMetric _ resourceId _ _ => resourceId
  | .updateResource _ resourceId _ => .str resourceId

/-- The exceptions the dispatcher expects of each call: the one its `except` clause
names, and the `UnexpectedError` that the decorator of `_process_resource` catches. -/
def Call.expected : Call → PyExc → Bool
  | .postMeasure .., e => e = .noSuchMetric || e = .unexpectedError
  | .createResource .., e => e = .resourceAlreadyExists || e = .unexpectedError
  | .createMetric .., e => e = .metricAlreadyExists || e = .unexpectedError
  | .updateResource .., e => e = .unexpectedError

@[simp] theorem final_ok {ε σ α : Type} (a : α) (s : σ) : final (.ok a s : EStateM.Result ε σ α) = s :=
  rfl

@[simp] theorem final_error {ε σ α : Type} (e : ε) (s : σ) :
    final (.error e s : EStateM.Result ε σ α) = s := rfl

@[simp] theorem raised_ok {ε σ α : Type} (a : α) (s : σ) :
    raised (.ok a s : EStateM.Result ε σ α) = none := rfl

@[simp] theorem raised_error {ε σ α : Type} (e : ε) (s : σ) :
    raised (.error e s : EStateM.Result ε σ α) = some e := rfl

variable {σ τ α β : Type}

/-- Run from any state whose backend satisfies `Inv`, `x` appends only calls that `made`
accepts, raises only exceptions that `allowed` accepts, and keeps `Inv`. -/
def Confined (Inv : σ → Prop) (made : Call → Prop) (allowed : PyExc → Prop) (x : DispatchM σ τ α) :
    Prop :=
  ∀ w, Inv w.remote → (∃ added, (∀ c ∈ added, made c) ∧ (final (x w)).calls = w.calls ++ added) ∧
    (∀ e, raised (x w) = some e → allowed e) ∧ Inv (final (x w)).remote

/-! ### Composition -/

section Composition

variable {Inv : σ → Prop} {made : Call → Prop} {allowed : PyExc → Prop}

/-- A statement that leaves the call log and the backend alone and returns. -/
theorem confined_of_ok {x : DispatchM σ τ α}
    (quiet : ∀ w, ∃ a w', x w = .ok a w' ∧ w'.calls = w.calls ∧ w'.remote = w.remote) :
    Confined Inv made allowed x := by
  intro w hw
  obtain ⟨a, w', run, calls, remote⟩ := quiet w
  exact ⟨⟨[], by simp, by simp [run, calls]⟩, by simp [run], by simpa [run, remote] using hw⟩

theorem confined_pure (a : α) : Confined Inv made allowed (pure a : DispatchM σ τ α) :=
  confined_of_ok fun w => ⟨a, w, rfl, rfl, rfl⟩

theorem confined_throw {e : PyExc} (h : allowed e) :
    Confined Inv made allowed (throw e : DispatchM σ τ α) :=
  fun _ hw => ⟨⟨[], by simp, by simp⟩, by simpa using h, hw⟩

theorem Confined.mono {made' : Call → Prop} {allowed' : PyExc → Prop} {x : DispatchM σ τ α}
    (hx : Confined Inv made allowed x) (hMade : ∀ c, made c → made' c)
    (hAllowed : ∀ e, allowed e → allowed' e) : Confined Inv made' allowed' x := by
  intro w hw
  obtain ⟨⟨added, madeAdded, calls⟩, raisedX, inv⟩ := hx w hw
  exact ⟨⟨added, fun c member => hMade c (madeAdded c member), calls⟩,
    fun e h => hAllowed e (raisedX e h), inv⟩

/-- Sequencing, where what `x` returns is known to satisfy `P`. -/
theorem Confined.bind_of {P : α → Prop} {x : DispatchM σ τ α} {f : α → DispatchM σ τ β}
    (hx : Confined Inv made allowed x) (post : ∀ w a w', x w = .ok a w' → P a)
    (hf : ∀ a, P a → Confined Inv made allowed (f a)) : Confined Inv made allowed (x >>= f) := by
  intro w hw
  obtain ⟨⟨added, madeAdded, calls⟩, raisedX, inv⟩ := hx w hw
  rw [bind_apply]
  cases run : x w with
  | ok a w' =>
    simp only [run, final_ok] at calls inv
    obtain ⟨⟨added', madeAdded', calls'⟩, raisedF, inv'⟩ := hf a (post w a w' run) w' inv
    refine ⟨⟨added ++ added', fun c member => ?_, by rw [calls', calls, List.append_assoc]⟩,
      raisedF, inv'⟩
    rcases List.mem_append.mp member with h | h
    exacts [madeAdded c h, madeAdded' c h]
  | error e w' =>
    simp only [run] at calls raisedX inv
    exact ⟨⟨added, madeAdded, calls⟩, raisedX, inv⟩

theorem Confined.bind {x : DispatchM σ τ α} {f : α → DispatchM σ τ β}
    (hx : Confined Inv made allowed x) (hf : ∀ a, Confined Inv made allowed (f a)) :
    Confined Inv made allowed (x >>= f) :=
  hx.bind_of (P := fun _ => True) (fun _ _ _ _ => trivial) fun a _ => hf a

/-- `try: x except: handler`, where the handler is confined for what `x` raises. -/
theorem Confined.tryCatch {allowedX : PyExc → Prop} {x : DispatchM σ τ α}
    {handler : PyExc → DispatchM σ τ α} (hx : Confined Inv made allowedX x)
    (hh : ∀ e, allowedX e → Confined Inv made allowed (handler e)) :
    Confined Inv made allowed (tryCatch x handler) := by
  intro w hw
  obtain ⟨⟨added, madeAdded, calls⟩, raisedX, inv⟩ := hx w hw
  rw [tryCatch_apply]
  cases run : x w with
  | ok a w' =>
    simp only [run] at calls inv
    exact ⟨⟨added, madeAdded, calls⟩, by simp, inv⟩
  | error e w' =>
    simp only [run, final_error, raised_error] at calls raisedX inv
    obtain ⟨⟨added', madeAdded', calls'⟩, raisedH, inv'⟩ := hh e (raisedX e rfl) w' inv
    refine ⟨⟨added ++ added', fun c member => ?_, by rw [calls', calls, List.append_assoc]⟩,
      raisedH, inv'⟩
    rcases List.mem_append.mp member with h | h
    exacts [madeAdded c h, madeAdded' c h]

theorem confined_liftExcept {r : Except PyExc α} (hr : ∀ e, r = .error e → allowed e) :
    Confined Inv made allowed (liftExcept r : DispatchM σ τ α) := by
  cases r with
  | ok a => exact confined_pure a
  | error e => exact confined_throw (hr e rfl)

theorem confined_getCache (c : CacheClient τ) (key : String) :
    Confined Inv made allowed (getCache c key : DispatchM σ τ (Option UInt64)) :=
  confined_of_ok fun w => ⟨_, w, rfl, rfl, rfl⟩

theorem confined_setCache (c : CacheClient τ) (key : String) (value : UInt64) (ttl : Nat) :
    Confined Inv made allowed (setCache c key value ttl : DispatchM σ τ Unit) :=
  confined_of_ok fun _ => ⟨(), _, rfl, rfl, rfl⟩

theorem confined_whenHash (h : Option UInt64) {body : UInt64 → DispatchM σ τ Unit}
    (hb : ∀ v, Confined Inv made allowed (body v)) : Confined Inv made allowed (whenHash h body) := by
  unfold whenHash
  split
  · split
    · exact hb _
    · exact confined_pure ()
  · exact confined_pure ()

/-- A statement that raises nothing returns, keeping `Inv`. -/
theorem Confined.returns {x : DispatchM σ τ α} (hx : Confined Inv made (fun _ => False) x)
    {w : World σ τ} (hw : Inv w.remote) : ∃ a w', x w = .ok a w' ∧ Inv w'.remote := by
  obtain ⟨-, raisedX, inv⟩ := hx w hw
  cases run : x w with
  | ok a w' => exact ⟨a, w', rfl, by simpa [run] using inv⟩
  | error e w' => exact (raisedX e (by rw [run]; rfl)).elim

theorem Confined.keeps {x : DispatchM σ τ α} (hx : Confined Inv made allowed x) {c : Call}
    {w : World σ τ} (hw : Inv w.remote) (member : c ∈ w.calls) : c ∈ (final (x w)).calls := by
  obtain ⟨⟨added, -, calls⟩, -⟩ := hx w hw
  rw [calls]
  exact List.mem_append_left _ member

/-! ### Calls that are made -/

/-- Run from any state whose backend satisfies `Inv`, `x` leaves call `c` in the log. -/
def Attempts (Inv : σ → Prop) (c : Call) (x : DispatchM σ τ α) : Prop :=
  ∀ w, Inv w.remote → c ∈ (final (x w)).calls

theorem Attempts.bind_of {c : Call} {P : α → Prop} {x : DispatchM σ τ α} {f : α → DispatchM σ τ β}
    {madeX : Call → Prop} {allowedX : PyExc → Prop} (hx : Confined Inv madeX allowedX x)
    (att : Attempts Inv c x) (post : ∀ w a w', x w = .ok a w' → P a)
    (hf : ∀ a, P a → Confined Inv made allowed (f a)) : Attempts Inv c (x >>= f) := by
  intro w hw
  have made := att w hw
  have inv := (hx w hw).2.2
  rw [bind_apply]
  cases run : x w with
  | ok a w' =>
    rw [run] at made inv
    exact (hf a (post w a w' run)).keeps inv made
  | error e w' =>
    rw [run] at made
    exact made

/-- A call made after a statement that always returns. -/
theorem attempts_bind_after {c : Call} {P : α → Prop} {x : DispatchM σ τ α}
    {f : α → DispatchM σ τ β} (returns : ∀ w, Inv w.remote → ∃ a w', x w = .ok a w' ∧ P a ∧ Inv w'.remote)
    (hf : ∀ a, P a → Attempts Inv c (f a)) : Attempts Inv c (x >>= f) := by
  intro w hw
  obtain ⟨a, w', run, ha, inv⟩ := returns w hw
  rw [bind_apply, run]
  exact hf a ha w' inv

theorem Attempts.tryCatch {c : Call} {allowedX : PyExc → Prop} {x : DispatchM σ τ α}
    {handler : PyExc → DispatchM σ τ α} (hx : Confined Inv made allowedX x) (att : Attempts Inv c x)
    (hh : ∀ e, allowedX e → Confined Inv made allowed (handler e)) :
    Attempts Inv c (tryCatch x handler) := by
  intro w hw
  have made := att w hw
  obtain ⟨-, raisedX, inv⟩ := hx w hw
  rw [tryCatch_apply]
  cases run : x w with
  | ok a w' => rwa [run] at made
  | error e w' =>
    rw [run] at made inv
    exact (hh e (raisedX e (by rw [run]; rfl))).keeps inv made

end Composition

/-! ### The dispatcher's functions -/

namespace GnocchiDispatcher

variable (d : GnocchiDispatcher σ τ) {Inv : σ → Prop} {made : Call → Prop} {allowed : PyExc → Prop}

/-- A call that keeps `Inv`, whose errors the backend limits to `allowed` ones. -/
theorem confined_gnocchiCall {c : Call} (hc : made c)
    (answers : ∀ s, Inv s → Inv (d.gnocchi c s).2 ∧ ∀ e, (d.gnocchi c s).1 = .error e → allowed e) :
    Confined Inv made allowed (d.gnocchiCall c) := by
  intro w hw
  obtain ⟨inv, raises⟩ := answers w.remote hw
  unfold gnocchiCall
  cases reply : d.gnocchi c w.remote with
  | mk r remote =>
    rw [reply] at inv raises
    cases r with
    | ok u => exact ⟨⟨[c], by simpa using hc, rfl⟩, by simp, inv⟩
    | error e => exact ⟨⟨[c], by simpa using hc, rfl⟩, by simpa using raises e rfl, inv⟩

theorem attempts_gnocchiCall (c : Call) : Attempts Inv c (d.gnocchiCall c) := by
  intro w _
  unfold gnocchiCall
  split <;> simp

/-- What the cache path needs of a resource dict: a `str` id, and hashable values
besides its metrics. -/
structure CacheSafe (resource : Dict) : Prop where
  id : ∃ rid, resource.get? "id" = some (.str rid)
  hashable : (resource.delItem "metrics").all (fun kv => kv.2.hashable) = true

theorem confined_cacheKeyOf {resource : Dict} (safe : CacheSafe resource) :
    Confined Inv made allowed (d.cacheKeyOf resource) := by
  obtain ⟨rid, id⟩ := safe.id
  simp only [cacheKeyOf, id]
  exact confined_pure _

theorem confined_checkResourceCache (c : CacheClient τ) (key : String) {resource : Dict}
    (safe : CacheSafe resource) : Confined Inv made allowed (d.checkResourceCache c key resource) := by
  refine Confined.bind (confined_of_ok fun w => ?_) fun _ =>
    (confined_getCache c key).bind fun _ => confined_pure _
  exact ⟨d.hash (resource.delItem "metrics"),
    { w with hashed := w.hashed ++ [resource.delItem "metrics"] },
    by simp [attributeHash, safe.hashable], rfl, rfl⟩

theorem confined_cacheGuarded (c : CacheClient τ) {resource : Dict} {action : DispatchM σ τ Unit}
    (safe : CacheSafe resource) (hAction : Confined Inv made allowed action) :
    Confined Inv made allowed (d.cacheGuarded c resource action) :=
  (d.confined_cacheKeyOf safe).bind fun _ =>
    (d.confined_checkResourceCache c _ safe).bind fun _ => confined_whenHash _ fun _ =>
      (d.confined_checkResourceCache c _ safe).bind fun _ => confined_whenHash _ fun _ =>
        hAction.bind fun _ => confined_setCache c _ _ _

/-- From a state of `Inv`, the backend answers each call that `made` accepts with a
state of `Inv`, as the client's contract says, and raises `UnexpectedError` only when
`allowed` accepts it. -/
def Answers (Inv : σ → Prop) (made : Call → Prop) (allowed : PyExc → Prop) : Prop :=
  ∀ c, made c → ∀ s, Inv s → Inv (d.gnocchi c s).2 ∧ ∀ e, (d.gnocchi c s).1 = .error e →
    c.expected e = true ∧ (e = .unexpectedError → allowed e)

section Contract

variable {d} (answers : d.Answers Inv made allowed)
include answers

/-- A call whose `except` clause catches `caught` raises that, or what `allowed` accepts. -/
theorem confined_expectedCall {c : Call} (hc : made c) (caught : PyExc)
    (expected : ∀ e, c.expected e = true → e = caught ∨ e = .unexpectedError) :
    Confined Inv made (fun e => e = caught ∨ allowed e) (d.gnocchiCall c) :=
  d.confined_gnocchiCall hc fun s hs => by
    refine ⟨(answers c hc s hs).1, fun e h => ?_⟩
    obtain ⟨isExpected, unexpected⟩ := (answers c hc s hs).2 e h
    rcases expected e isExpected with rfl | rfl
    exacts [.inl rfl, .inr (unexpected rfl)]

theorem confined_createMetric {resourceType metricName rid : String} {resource : Dict} {p : Value}
    (id : resource.get? "id" = some (.str rid))
    (policy : metricArchivePolicy resource metricName = .ok p)
    (hc : made (.createMetric resourceType (.str rid) metricName p)) :
    Confined Inv made allowed (d.createMetric resourceType resource metricName) := by
  have call := confined_expectedCall answers hc .metricAlreadyExists fun e h => by
    simpa [Call.expected] using h
  have getId : resource.getItem "id" = .ok (.str rid) := (Dict.getItem_eq_ok _ _ _).mpr id
  unfold createMetric
  rw [policy, getId]
  refine Confined.tryCatch call fun e h => ?_
  split
  · exact confined_pure ()
  · exact confined_throw (h.resolve_left ‹_›)

theorem confined_createResource {resourceType : String} {resource : Dict}
    (safe : CacheSafe resource) (hc : made (.createResource resourceType resource)) :
    Confined Inv made (fun e => e = .resourceAlreadyExists ∨ allowed e)
      (d.createResource resourceType resource) := by
  have call := confined_expectedCall answers hc .resourceAlreadyExists fun e h => by
    simpa [Call.expected] using h
  unfold createResource
  split
  · exact d.confined_cacheGuarded _ safe call
  · exact call

/-- What `_ensure_resource_and_metric` needs to stay within the contract: a resource dict
the cache path can hash, with a `str` id and an archive policy for the metric. -/
theorem confined_ensureResourceAndMetric {resourceType metricName rid : String}
    {resource : Dict} {p : Value} (safe : CacheSafe resource)
    (id : resource.get? "id" = some (.str rid))
    (policy : metricArchivePolicy resource metricName = .ok p)
    (hResource : made (.createResource resourceType resource))
    (hMetric : made (.createMetric resourceType (.str rid) metricName p)) :
    Confined Inv made allowed (d.ensureResourceAndMetric resourceType resource metricName) := by
  have metric := confined_createMetric answers id policy hMetric
  refine (Confined.tryCatch (confined_createResource answers safe hResource) fun e h => ?_).bind
    fun _ => metric
  split
  · exact metric
  · exact confined_throw (h.resolve_left ‹_›)

/-- `post_measure`, with its retry on `NoSuchMetric`, stays within the contract and
always makes its first call. -/
theorem postMeasure_spec {resourceType resourceId metricName rid : String}
    {measures : List Measure} {resource : Dict} {p : Value} (safe : CacheSafe resource)
    (id : resource.get? "id" = some (.str rid))
    (policy : metricArchivePolicy resource metricName = .ok p)
    (hPost : made (.postMeasure resourceType resourceId metricName measures))
    (hResource : made (.createResource resourceType resource))
    (hMetric : made (.createMetric resourceType (.str rid) metricName p)) :
    Confined Inv made allowed (d.postMeasure resourceType resourceId metricName measures resource) ∧
      Attempts Inv (.postMeasure resourceType resourceId metricName measures)
        (d.postMeasure resourceType resourceId metricName measures resource) := by
  have post := confined_expectedCall answers hPost .noSuchMetric fun e h => by
    simpa [Call.expected] using h
  refine ⟨Confined.tryCatch post ?retry, Attempts.tryCatch post (d.attempts_gnocchiCall _) ?retry⟩
  intro e h
  split
  · refine (confined_ensureResourceAndMetric answers safe id policy hResource hMetric).bind
      fun _ => Confined.tryCatch post fun e h => ?_
    split
    · exact confined_pure ()
    · exact confined_throw (h.resolve_left ‹_›)
  · exact confined_throw (h.resolve_left ‹_›)

/-- The reconciliation at the end of `_process_resource`, for an accumulator that
remembers a resource whenever it holds attributes. -/
theorem confined_reconcile (resourceId : String) (acc : ResourceAcc)
    (bound : acc.last = none → acc.resourceExtra = [])
    (last : ∀ rt resource, acc.last = some (rt, resource) →
      CacheSafe resource ∧ made (.updateResource rt resourceId acc.resourceExtra)) :
    Confined Inv made allowed (d.reconcile resourceId acc) := by
  unfold reconcile
  split
  · exact confined_pure ()
  · split
    · exact absurd (bound ‹_›) ‹_›
    · obtain ⟨safe, hc⟩ := last _ _ ‹_›
      have call := d.confined_gnocchiCall hc fun s hs => by
        refine ⟨(answers _ hc s hs).1, fun e h => ?_⟩
        obtain ⟨expected, unexpected⟩ := (answers _ hc s hs).2 e h
        exact unexpected (by simpa [Call.expected] using expected)
      split
      · exact d.confined_cacheGuarded _ safe call
      · exact call

end Contract

end GnocchiDispatcher

end Ceilometer.Dispatcher
