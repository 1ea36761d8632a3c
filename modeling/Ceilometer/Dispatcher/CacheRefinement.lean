import Ceilometer.Dispatcher.Delivery
import Ceilometer.Dispatcher.Store

/-!
# The attribute cache is an optimisation

With `memcached_servers` set, `_ensure_resource_and_metric` and `_process_resource` skip
`create_resource` and `update_resource` when memcache already holds the hash of the
resource's body. Against a `Store` backend, the dispatcher with a cache is related,
statement by statement, to the same dispatcher with `self.cache = None`.

## Main result

* `cache_is_optimisation`: fed any sequence of batches from an empty cache, the dispatcher
  with a cache raises exactly where the one without does and leaves the backend in the
  same state; its call log is the other's with some calls left out, none of them a
  `post_measure`. This holds when two bodies hashed during the run hash alike only when
  they have the same items and none hashes to `0`, the batches are plain, and no
  definition names an attribute `user_id` or `project_id`.

## Proof strategy

`Refines O x y`: from worlds related by `Sim` (the same backend, and a memcache whose
every entry the backend agrees with), the cached statement `x` and the uncached `y` end
with `O`-related outcomes in related worlds. Each function gets one such lemma, built
with `Refines.bind` and `Refines.tryCatch`; only the two cache-guarded blocks need a case
split on whether memcache hits (`cacheGuarded_step`). Whether hashes collide is only
known at the end of the run, so a refinement assumes it of the final log of hashed
bodies, which every statement only extends (`Hashes`).
-/

namespace Ceilometer.Dispatcher

/-- What memcache may do: after `set`, the key holds the new value or nothing, and every
other key what it held or nothing. -/
def CacheClient.Lawful {τ : Type} (c : CacheClient τ) : Prop :=
  ∀ key key' value ttl t h, c.get key (c.set key' value ttl t) = some h →
    (key = key' ∧ h = value) ∨ (key ≠ key' ∧ c.get key t = some h)

/-- Whether a call updates a resource's attributes. -/
def Call.isUpdate : Call → Bool
  | .updateResource .. => true
  | _ => false

/-- The keys of the body that `_process_resource` sets itself, and that `update_resource`
does not send. -/
def ownKeys : List String := ["id", "user_id", "project_id"]

/-- `update_resource` sends `extra` for the body `R`: the two agree outside `ownKeys`, and
`extra` sets none of those. -/
structure Sends (R extra : Dict) : Prop where
  agree : ∀ k, k ∉ ownKeys → R.get? k = Dict.get? extra.reverse k
  own : ∀ k ∈ ownKeys, Dict.get? extra.reverse k = none

namespace Store

/-- The store holds body `R` as resource `rid`: the resource exists, with every attribute
of `R` outside `ownKeys`. -/
def Holds (store : Store) (rid : String) (R : Dict) : Prop :=
  ∃ r, store.resources rid = some r ∧
    ∀ k v, k ∉ ownKeys → R.get? k = some v → r.attributes k = some v

/-- `store'` still has every resource of `store`, with the same attributes. -/
def Keeps (store store' : Store) : Prop :=
  ∀ rid r, store.resources rid = some r →
    ∃ r', store'.resources rid = some r' ∧ r'.attributes = r.attributes

variable {store store' : Store} {rid : String} {R : Dict}

theorem keeps_refl (store : Store) : store.Keeps store := fun _ r found => ⟨r, found, rfl⟩

theorem Holds.keeps (holds : store.Holds rid R) (keeps : store.Keeps store') :
    store'.Holds rid R := by
  obtain ⟨r, found, attrs⟩ := holds
  obtain ⟨r', found', same⟩ := keeps rid r found
  exact ⟨r', found', fun k v hk hv => same ▸ attrs k v hk hv⟩

theorem Holds.of_eq (holds : store.Holds rid R) (same : store'.resources rid = store.resources rid) :
    store'.Holds rid R := by
  obtain ⟨r, found, attrs⟩ := holds
  exact ⟨r, same.trans found, attrs⟩

/-- `Holds` reads the body only through its items. -/
theorem Holds.of_sameItems {R' : Dict} (holds : store.Holds rid R) (same : R.SameItems R') :
    store.Holds rid R' := by
  obtain ⟨r, found, attrs⟩ := holds
  exact ⟨r, found, fun k v hk hv => attrs k v hk ((same k).trans hv)⟩

theorem resources_of_find {rt : String} {r : StoredResource} (found : store.find rt rid = some r) :
    store.resources rid = some r :=
  (Option.filter_eq_some.mp found).1

theorem set_self {r : StoredResource} (found : store.resources rid = some r) : store.set rid r = store := by
  cases store
  simp only [set, mk.injEq]
  funext k
  split
  · subst k; exact found.symm
  · rfl

theorem keeps_setMetric {r : StoredResource} (found : store.resources rid = some r) (name : String)
    (m : StoredMetric) : store.Keeps (store.set rid (r.setMetric name m)) := by
  intro rid' r' found'
  by_cases same : rid' = rid
  · subst same
    rw [found] at found'
    cases found'
    exact ⟨r.setMetric name m, by simp, rfl⟩
  · exact ⟨r', by simp [same, found'], rfl⟩

theorem keeps_set_new {r : StoredResource} (absent : store.resources rid = none) :
    store.Keeps (store.set rid r) := by
  intro rid' r' found'
  have : rid' ≠ rid := by rintro rfl; rw [absent] at found'; cases found'
  exact ⟨r', by simp [this, found'], rfl⟩

/-- Every call but `update_resource` keeps every resource's attributes. -/
theorem keeps_apply (store : Store) {c : Call} (notUpdate : c.isUpdate = false) :
    store.Keeps (apply c store).2 := by
  cases c with
  | postMeasure rt rid m measures =>
    simp only [apply]
    cases found : store.find rt rid with
    | none => exact keeps_refl _
    | some r =>
      dsimp only
      cases r.metrics m with
      | none => exact keeps_refl _
      | some metric => exact keeps_setMetric (resources_of_find found) _ _
  | createResource rt resource =>
    simp only [apply]
    cases hid : resource.get? "id" with
    | none => exact keeps_refl _
    | some v =>
      cases v with
      | str id =>
        dsimp only
        split
        · exact keeps_refl _
        · cases created rt resource with
          | ok r => exact keeps_set_new (Option.not_isSome_iff_eq_none.mp ‹_›)
          | error e => exact keeps_refl _
      | _ => exact keeps_refl _
  | createMetric rt resourceId m p =>
    cases resourceId with
    | str rid =>
      simp only [apply]
      cases found : store.find rt rid with
      | none => exact keeps_refl _
      | some r =>
        dsimp only
        split
        · exact keeps_refl _
        · exact keeps_setMetric (resources_of_find found) _ _
    | _ => exact keeps_refl _
  | updateResource => cases notUpdate

theorem created_attributes {rt : String} {resource : Dict} {r : StoredResource}
    (h : created rt resource = .ok r) (k : String) :
    r.attributes k = (resource.delItem "metrics").get? k := by
  unfold created at h
  split at h
  · cases h; rfl
  · cases h
    by_cases metrics : "metrics" = k
    · subst metrics; simp_all
    · simp [metrics]
  · cases h

/-- A `create_resource` that succeeds makes the store hold the body without its metrics,
and touches no other resource. -/
theorem holds_create {rt : String} {resource : Dict} (id : resource.get? "id" = some (.str rid))
    (ok : (apply (.createResource rt resource) store).1 = .ok ()) :
    (apply (.createResource rt resource) store).2.Holds rid (resource.delItem "metrics") ∧
      ∀ rid' ≠ rid, (apply (.createResource rt resource) store).2.resources rid' = store.resources rid' := by
  simp only [apply, id] at ok ⊢
  by_cases present : (store.resources rid).isSome
  · simp [present] at ok
  · cases made : created rt resource with
    | error e => simp [present, made] at ok
    | ok r =>
      simp only [present, made, if_false, Bool.false_eq_true]
      exact ⟨⟨r, by simp, fun k v _ hv => by rw [created_attributes made, hv]⟩,
        fun rid' other => by simp [other]⟩

/-- `update_resource` of resource `rid` touches no other resource. -/
theorem apply_update_other {rt : String} {extra : Dict} (store : Store) {rid' : String}
    (other : rid' ≠ rid) :
    (apply (.updateResource rt rid extra) store).2.resources rid' = store.resources rid' := by
  simp only [apply]
  cases store.find rt rid <;> simp [other]

/-- A successful `update_resource` of the attributes sent for body `R` makes the store hold
`R`. -/
theorem holds_update {rt : String} {extra : Dict} (sends : Sends R extra)
    (ok : (apply (.updateResource rt rid extra) store).1 = .ok ()) :
    (apply (.updateResource rt rid extra) store).2.Holds rid R := by
  simp only [apply] at ok ⊢
  cases found : store.find rt rid with
  | none => simp [found] at ok
  | some r =>
    refine ⟨{ r with attributes := fun k => (Dict.get? extra.reverse k).or (r.attributes k) },
      by simp, fun k v hk hv => ?_⟩
    show (Dict.get? extra.reverse k).or (r.attributes k) = some v
    rw [← sends.agree k hk, hv]
    rfl

/-- `update_resource` of attributes the store already holds changes nothing: it returns,
or raises `UnexpectedError` when the resource has another type. -/
theorem apply_update_of_holds (rt : String) {extra : Dict} (holds : store.Holds rid R)
    (sends : Sends R extra) :
    (apply (.updateResource rt rid extra) store).2 = store ∧
      ((apply (.updateResource rt rid extra) store).1 = .ok () ∨
        (apply (.updateResource rt rid extra) store).1 = .error .unexpectedError) := by
  obtain ⟨r₀, found₀, attrs⟩ := holds
  simp only [apply]
  cases found : store.find rt rid with
  | none => exact ⟨rfl, .inr rfl⟩
  | some r =>
    obtain rfl : r = r₀ := Option.some.inj ((resources_of_find found).symm.trans found₀)
    refine ⟨?_, .inl rfl⟩
    have unchanged : (fun k => (Dict.get? extra.reverse k).or (r.attributes k)) = r.attributes := by
      funext k
      cases sent : Dict.get? extra.reverse k with
      | none => rfl
      | some v =>
        have hk : k ∉ ownKeys := fun mem => by rw [sends.own k mem] at sent; cases sent
        exact (attrs k v hk ((sends.agree k hk).trans sent)).symm
    show store.set rid { r with attributes := _ } = store
    rw [unchanged]
    exact set_self found₀

/-- Once `create_metric` has made the metric, or found it, the same call finds it. -/
theorem apply_createMetric_again (store : Store) {rt m : String} {v p : Value}
    (done : (apply (.createMetric rt v m p) store).1 = .ok () ∨
      (apply (.createMetric rt v m p) store).1 = .error .metricAlreadyExists) :
    apply (.createMetric rt v m p) (apply (.createMetric rt v m p) store).2 =
      (.error .metricAlreadyExists, (apply (.createMetric rt v m p) store).2) := by
  cases v with
  | str rid =>
    simp only [apply] at done ⊢
    cases found : store.find rt rid with
    | none => simp [found] at done
    | some r =>
      have sameType : r.resourceType = rt := by simpa using (Option.filter_eq_some.mp found).2
      by_cases has : (r.metrics m).isSome
      · simp [found, has]
      · simp [found, has, find, sameType, StoredResource.setMetric, Option.filter]
  | _ => simp [apply] at done

end Store

/-! ### What `update_resource` sends -/

theorem ResourcesDefinition.mem_attributes {rd : ResourcesDefinition} {s : Sample}
    {kv : String × Value} (member : kv ∈ rd.attributes s) : ∃ a ∈ rd.attributeDefs, a.1 = kv.1 := by
  suffices from_acc : ∀ (defs : List (String × (Sample → Value))) (acc : Dict),
      kv ∈ defs.foldl (fun attrs d => if d.2 s ≠ .none then attrs.setItem d.1 (d.2 s) else attrs) acc →
        kv ∈ acc ∨ ∃ a ∈ defs, a.1 = kv.1 from
    (from_acc _ [] member).resolve_left (List.not_mem_nil _)
  intro defs
  induction defs with
  | nil => exact fun _ h => .inl h
  | cons a defs ih =>
    intro acc h
    rcases ih _ h with h | ⟨b, hb, same⟩
    · dsimp only at h
      split at h
      · rcases Dict.mem_setItem h with h | rfl
        · exact .inl h
        · exact .inr ⟨a, List.mem_cons_self _ _, rfl⟩
      · exact .inl h
    · exact .inr ⟨b, List.mem_cons_of_mem _ hb, same⟩

theorem mem_gather (rd : ResourcesDefinition) :
    ∀ (samples : List Sample) (extra : Dict) {kv : String × Value},
      kv ∈ GnocchiDispatcher.gather rd extra samples → kv ∈ extra ∨ ∃ s ∈ samples, kv ∈ rd.attributes s
  | [], _, _, h => .inl h
  | s :: samples, extra, _, h => by
    rcases mem_gather rd samples (extra.update (rd.attributes s)) h with h | ⟨t, ht, h⟩
    · rcases Dict.mem_update h with h | h
      · exact .inl h
      · exact .inr ⟨s, List.mem_cons_self _ _, h⟩
    · exact .inr ⟨t, List.mem_cons_of_mem _ ht, h⟩

/-- The body `_process_resource` builds sends its attributes: outside `ownKeys` it is
`resource_extra`. -/
theorem sends_resourceDict {rid : String} {rd : ResourcesDefinition} {first : Sample} {extra : Dict}
    (plain : PlainDict extra) (avoids : ∀ kv ∈ extra, kv.1 ∉ ownKeys) :
    Sends ((resourceDict rid rd first extra).delItem "metrics") extra where
  agree k hk := by
    have named : "id" ≠ k ∧ "user_id" ≠ k ∧ "project_id" ≠ k := by
      simp only [ownKeys, List.mem_cons, List.mem_singleton, List.not_mem_nil, or_false, not_or] at hk
      exact ⟨Ne.symm hk.1, Ne.symm hk.2.1, Ne.symm hk.2.2⟩
    by_cases metrics : "metrics" = k
    · subst metrics
      simp [plain.get?_eq_none (.inr rfl)]
    · simp [resourceDict, metrics, named.1, named.2.1, named.2.2]
  own k hk := Dict.get?_eq_none fun kv member same => avoids kv (List.mem_reverse.mp member) (same ▸ hk)

/-! ### Refinement between statements -/

/-- A statement only appends to the log of hashed bodies. -/
def Hashes {σ τ α : Type} (x : DispatchM σ τ α) : Prop := ∀ w, w.hashed <+: (final (x w)).hashed

section Hashing

variable {σ τ α β : Type}

theorem hashes_of_eq {x : DispatchM σ τ α} (same : ∀ w, (final (x w)).hashed = w.hashed) :
    Hashes x := fun w => ⟨[], (List.append_nil _).trans (same w).symm⟩

theorem hashes_pure (a : α) : Hashes (pure a : DispatchM σ τ α) := hashes_of_eq fun _ => rfl

theorem hashes_throw (e : PyExc) : Hashes (throw e : DispatchM σ τ α) := hashes_of_eq fun _ => rfl

theorem prefix_final_bind {x : DispatchM σ τ α} {f : α → DispatchM σ τ β} {w : World σ τ}
    (hf : ∀ a w', x w = .ok a w' → Hashes (f a)) :
    (final (x w)).hashed <+: (final ((x >>= f) w)).hashed := by
  rw [bind_apply]
  cases run : x w with
  | ok a w' => exact hf a w' run w'
  | error e w' => exact List.prefix_refl _

theorem prefix_final_tryCatch {x : DispatchM σ τ α} {h : PyExc → DispatchM σ τ α} {w : World σ τ}
    (hh : ∀ e, Hashes (h e)) : (final (x w)).hashed <+: (final (tryCatch x h w)).hashed := by
  rw [tryCatch_apply]
  cases x w with
  | ok a w' => exact List.prefix_refl _
  | error e w' => exact hh e w'

theorem Hashes.bind_of {x : DispatchM σ τ α} {f : α → DispatchM σ τ β} (hx : Hashes x)
    (hf : ∀ w a w', x w = .ok a w' → Hashes (f a)) : Hashes (x >>= f) :=
  fun w => (hx w).trans (prefix_final_bind (hf w))

theorem Hashes.bind {x : DispatchM σ τ α} {f : α → DispatchM σ τ β} (hx : Hashes x)
    (hf : ∀ a, Hashes (f a)) : Hashes (x >>= f) :=
  hx.bind_of fun _ a _ _ => hf a

theorem Hashes.tryCatch {x : DispatchM σ τ α} {h : PyExc → DispatchM σ τ α} (hx : Hashes x)
    (hh : ∀ e, Hashes (h e)) : Hashes (tryCatch x h) :=
  fun w => (hx w).trans (prefix_final_tryCatch hh)

end Hashing

/-- Outcomes agree, or the cached statement returned where the uncached one raised
`UnexpectedError`. -/
def UpToUnexpected (r r' : Except PyExc Unit) : Prop :=
  r = r' ∨ (r = .ok () ∧ r' = .error .unexpectedError)

namespace GnocchiDispatcher

variable {τ : Type} (d : GnocchiDispatcher Store τ) (c : CacheClient τ)

/-- The same dispatcher with `self.cache = None`. -/
def uncached : GnocchiDispatcher Store τ := { d with cache := none }

@[simp] theorem uncached_gnocchi : d.uncached.gnocchi = d.gnocchi := rfl

@[simp] theorem uncached_cache : d.uncached.cache = none := rfl

/-- Every memcache entry is the hash of a body hashed during the run, under the key of the
body's resource, and the backend holds that body. -/
def CacheSound (cache : τ) (hashed : List Dict) (store : Store) : Prop :=
  ∀ key h, c.get key cache = some h → ∃ R ∈ hashed, d.hash R = h ∧
    ∃ rid, R.get? "id" = some (.str rid) ∧ d.cacheKeyMangler rid = key ∧ store.Holds rid R

/-- No body hashed during the run hashes to `0`, which `if attribute_hash:` reads as false,
and two bodies hash alike only when they have the same items. -/
def NoCollision (hashed : List Dict) : Prop :=
  ∀ R ∈ hashed, d.hash R ≠ 0 ∧ ∀ R' ∈ hashed, d.hash R = d.hash R' → R.SameItems R'

/-- The world `wc` of the cached dispatcher simulates the world `wu` of the uncached one:
the same backend and project id, a call log with fewer calls but the same posts, and a
sound memcache. -/
structure Sim (wc wu : World Store τ) : Prop where
  remote : wc.remote = wu.remote
  projectId : wc.gnocchiProjectId = wu.gnocchiProjectId
  calls : wc.calls.Sublist wu.calls
  posts : postCalls wc.calls = postCalls wu.calls
  sound : d.CacheSound c wc.cache wc.hashed wc.remote

/-- Run from `wc` and `wu`, the cached statement `x` and the uncached `y` end with
`O`-related outcomes in simulating worlds, unless the hashes of the run collide. -/
def RefinesAt {α : Type} (O : Except PyExc α → Except PyExc α → Prop) (x y : DispatchM Store τ α)
    (wc wu : World Store τ) : Prop :=
  d.NoCollision (final (x wc)).hashed →
    O (outcome (x wc)) (outcome (y wu)) ∧ d.Sim c (final (x wc)) (final (y wu))

/-- The cached statement `x` refines the uncached `y` from every pair of simulating
worlds. -/
def Refines {α : Type} (O : Except PyExc α → Except PyExc α → Prop) (x y : DispatchM Store τ α) :
    Prop :=
  Hashes x ∧ ∀ wc wu, d.Sim c wc wu → d.RefinesAt c O x y wc wu

variable {d c}

theorem NoCollision.of_prefix {l l' : List Dict} (nc : d.NoCollision l') (pre : l <+: l') :
    d.NoCollision l := fun R hR =>
  ⟨(nc R (pre.subset hR)).1, fun R' hR' => (nc R (pre.subset hR)).2 R' (pre.subset hR')⟩

theorem CacheSound.keeps {cache : τ} {hashed hashed' : List Dict} {store store' : Store}
    (sound : d.CacheSound c cache hashed store) (grown : hashed <+: hashed')
    (keeps : store.Keeps store') : d.CacheSound c cache hashed' store' := fun key h got => by
  obtain ⟨R, mem, hash, rid, id, key, holds⟩ := sound key h got
  exact ⟨R, grown.subset mem, hash, rid, id, key, holds.keeps keeps⟩

/-- Memcache after `cache.set(cache_key, attribute_hash)` for a body the store holds. -/
theorem CacheSound.set (lawful : c.Lawful) {cache : τ} {hashed hashed' : List Dict}
    {store store' : Store} (sound : d.CacheSound c cache hashed store) {rid : String} {R : Dict}
    (id : R.get? "id" = some (.str rid)) (mem : R ∈ hashed') (grown : hashed <+: hashed')
    (holds : store'.Holds rid R) (others : ∀ rid' ≠ rid, store'.resources rid' = store.resources rid')
    (ttl : Nat) : d.CacheSound c (c.set (d.cacheKeyMangler rid) (d.hash R) ttl cache) hashed' store' := by
  intro key h got
  rcases lawful key _ _ _ _ h got with ⟨rfl, rfl⟩ | ⟨fresh, old⟩
  · exact ⟨R, mem, rfl, rid, id, rfl, holds⟩
  · obtain ⟨R', mem', hash', rid', id', rfl, holds'⟩ := sound _ h old
    have other : rid' ≠ rid := by rintro rfl; exact fresh rfl
    exact ⟨R', grown.subset mem', hash', rid', id', rfl, holds'.of_eq (others rid' other)⟩

theorem postCalls_append (l l' : List Call) : postCalls (l ++ l') = postCalls l ++ postCalls l' :=
  List.filter_append _ _

/-- Both worlds make the same call, to the same effect on the backend. -/
theorem Sim.call {wc wu : World Store τ} (sim : d.Sim c wc wu) (call : Call) {store' : Store}
    (keeps : wc.remote.Keeps store') :
    d.Sim c { wc with remote := store', calls := wc.calls ++ [call] }
      { wu with remote := store', calls := wu.calls ++ [call] } :=
  ⟨rfl, sim.projectId, sim.calls.append (List.Sublist.refl _),
    by rw [postCalls_append, postCalls_append, sim.posts],
    sim.sound.keeps (List.prefix_refl _) keeps⟩

/-- The cached world hashes more bodies. -/
theorem Sim.sound_remote {wc wu : World Store τ} (sim : d.Sim c wc wu) :
    d.CacheSound c wc.cache wc.hashed wu.remote :=
  sim.remote ▸ sim.sound

theorem Sim.append_hashed {wc wu : World Store τ} (sim : d.Sim c wc wu) (more : List Dict) :
    d.Sim c { wc with hashed := wc.hashed ++ more } wu :=
  ⟨sim.remote, sim.projectId, sim.calls, sim.posts,
    sim.sound.keeps (List.prefix_append _ _) (Store.keeps_refl _)⟩

/-- The uncached world makes calls that the cached one skips, none of them a post. -/
theorem Sim.append_calls {wc wu : World Store τ} (sim : d.Sim c wc wu) (added : List Call)
    (notPosts : ∀ call ∈ added, call.isPost = false) : d.Sim c wc { wu with calls := wu.calls ++ added } :=
  have none : postCalls added = [] := List.filter_eq_nil_iff.mpr fun call h => by simp [notPosts call h]
  ⟨sim.remote, sim.projectId, sim.calls.trans (List.sublist_append_left _ _),
    by rw [postCalls_append, ← sim.posts, none, List.append_nil], sim.sound⟩

section Composition

variable {α β : Type} {O : Except PyExc β → Except PyExc β → Prop}

theorem refines_pure (a : α) : d.Refines c Eq (pure a) (pure a) :=
  ⟨hashes_pure a, fun _ _ sim _ => ⟨rfl, sim⟩⟩

theorem refines_throw (e : PyExc) : d.Refines c Eq (throw e : DispatchM Store τ α) (throw e) :=
  ⟨hashes_throw e, fun _ _ sim _ => ⟨rfl, sim⟩⟩

theorem refines_liftExcept (r : Except PyExc α) : d.Refines c Eq (liftExcept r) (liftExcept r) := by
  cases r
  exacts [refines_throw _, refines_pure _]

theorem RefinesAt.mono {O' : Except PyExc β → Except PyExc β → Prop} {x y : DispatchM Store τ β}
    {wc wu : World Store τ} (h : d.RefinesAt c O x y wc wu) (imp : ∀ r r', O r r' → O' r r') :
    d.RefinesAt c O' x y wc wu := fun nc =>
  ⟨imp _ _ (h nc).1, (h nc).2⟩

theorem Refines.mono {O' : Except PyExc β → Except PyExc β → Prop} {x y : DispatchM Store τ β}
    (h : d.Refines c O x y) (imp : ∀ r r', O r r' → O' r r') : d.Refines c O' x y :=
  ⟨h.1, fun wc wu sim => (h.2 wc wu sim).mono imp⟩

/-- Sequencing from two given worlds, where what `x` returns is known to satisfy `P`. -/
theorem RefinesAt.bind_of (refl : ∀ r, O r r) {P : α → Prop} {x y : DispatchM Store τ α}
    {f g : α → DispatchM Store τ β} {wc wu : World Store τ} (hx : d.RefinesAt c Eq x y wc wu)
    (post : ∀ a w', x wc = .ok a w' → P a) (hf : ∀ a, P a → d.Refines c O (f a) (g a)) :
    d.RefinesAt c O (x >>= f) (y >>= g) wc wu := by
  intro nc
  obtain ⟨out, sim₁⟩ := hx (nc.of_prefix (prefix_final_bind fun a w' run => (hf a (post a w' run)).1))
  rw [bind_apply] at nc ⊢
  rw [bind_apply]
  cases runX : x wc with
  | ok a wc₁ =>
    rw [runX] at out sim₁ nc
    cases runY : y wu with
    | ok b wu₁ =>
      rw [runY] at out sim₁
      cases out
      exact (hf a (post a wc₁ runX)).2 wc₁ wu₁ sim₁ nc
    | error e wu₁ => rw [runY] at out; cases out
  | error e wc₁ =>
    rw [runX] at out sim₁
    cases runY : y wu with
    | ok b wu₁ => rw [runY] at out; cases out
    | error e' wu₁ =>
      rw [runY] at out sim₁
      cases out
      exact ⟨refl _, sim₁⟩

theorem Refines.bind_of (refl : ∀ r, O r r) {P : α → Prop} {x y : DispatchM Store τ α}
    {f g : α → DispatchM Store τ β} (hx : d.Refines c Eq x y) (post : ∀ w a w', x w = .ok a w' → P a)
    (hf : ∀ a, P a → d.Refines c O (f a) (g a)) : d.Refines c O (x >>= f) (y >>= g) :=
  ⟨hx.1.bind_of fun w a w' run => (hf a (post w a w' run)).1,
    fun wc wu sim => (hx.2 wc wu sim).bind_of refl (post wc) hf⟩

theorem Refines.bind (refl : ∀ r, O r r) {x y : DispatchM Store τ α} {f g : α → DispatchM Store τ β}
    (hx : d.Refines c Eq x y) (hf : ∀ a, d.Refines c O (f a) (g a)) :
    d.Refines c O (x >>= f) (y >>= g) :=
  hx.bind_of refl (P := fun _ => True) (fun _ _ _ _ => trivial) fun a _ => hf a

/-- `try`/`except` from two given worlds. -/
theorem RefinesAt.tryCatch {O : Except PyExc α → Except PyExc α → Prop} (refl : ∀ r, O r r)
    {x y : DispatchM Store τ α} {h k : PyExc → DispatchM Store τ α} {wc wu : World Store τ}
    (hx : d.RefinesAt c Eq x y wc wu) (hh : ∀ e, d.Refines c O (h e) (k e)) :
    d.RefinesAt c O (tryCatch x h) (tryCatch y k) wc wu := by
  intro nc
  obtain ⟨out, sim₁⟩ := hx (nc.of_prefix (prefix_final_tryCatch fun e => (hh e).1))
  rw [tryCatch_apply] at nc ⊢
  rw [tryCatch_apply]
  cases runX : x wc with
  | ok a wc₁ =>
    rw [runX] at out sim₁
    cases runY : y wu with
    | ok b wu₁ =>
      rw [runY] at out sim₁
      cases out
      exact ⟨refl _, sim₁⟩
    | error e wu₁ => rw [runY] at out; cases out
  | error e wc₁ =>
    rw [runX] at out sim₁ nc
    cases runY : y wu with
    | ok b wu₁ => rw [runY] at out; cases out
    | error e' wu₁ =>
      rw [runY] at out sim₁
      cases out
      exact (hh e).2 wc₁ wu₁ sim₁ nc

theorem Refines.tryCatch {O : Except PyExc α → Except PyExc α → Prop} (refl : ∀ r, O r r)
    {x y : DispatchM Store τ α} {h k : PyExc → DispatchM Store τ α} (hx : d.Refines c Eq x y)
    (hh : ∀ e, d.Refines c O (h e) (k e)) : d.Refines c O (tryCatch x h) (tryCatch y k) :=
  ⟨hx.1.tryCatch fun e => (hh e).1, fun wc wu sim => (hx.2 wc wu sim).tryCatch refl hh⟩

theorem Refines.ite {p : Prop} [Decidable p] {x x' y y' : DispatchM Store τ β}
    (pos : p → d.Refines c O x y) (neg : ¬p → d.Refines c O x' y') :
    d.Refines c O (if p then x else x') (if p then y else y') := by
  by_cases h : p
  · rw [if_pos h, if_pos h]; exact pos h
  · rw [if_neg h, if_neg h]; exact neg h

/-- `if e == UnexpectedError: pass, else: raise` refines itself. -/
theorem refines_reraise (caught e : PyExc) :
    d.Refines c Eq (if e = caught then pure () else throw e : DispatchM Store τ Unit)
      (if e = caught then pure () else throw e) :=
  Refines.ite (fun _ => refines_pure ()) fun _ => refines_throw e

/-- `log_and_ignore_unexpected_workflow_error` turns a refinement up to an
`UnexpectedError` of the uncached statement into an exact one. -/
theorem refines_logAndIgnore {x y : DispatchM Store τ Unit} (hx : d.Refines c UpToUnexpected x y) :
    d.Refines c Eq (tryCatch x fun e => if e = .unexpectedError then pure () else throw e)
      (tryCatch y fun e => if e = .unexpectedError then pure () else throw e) := by
  refine ⟨hx.1.tryCatch fun e => (refines_reraise (d := d) (c := c) _ e).1, fun wc wu sim nc => ?_⟩
  obtain ⟨out, sim₁⟩ := hx.2 wc wu sim (nc.of_prefix (prefix_final_tryCatch fun e =>
    (refines_reraise (d := d) (c := c) _ e).1))
  rw [tryCatch_apply] at nc ⊢
  rw [tryCatch_apply]
  cases runX : x wc with
  | ok u wc₁ =>
    rw [runX] at out sim₁
    cases runY : y wu with
    | ok u' wu₁ => rw [runY] at sim₁; exact ⟨rfl, sim₁⟩
    | error e wu₁ =>
      rw [runY] at out sim₁
      rcases out with out | ⟨-, out⟩ <;> cases out
      exact ⟨rfl, sim₁⟩
  | error e wc₁ =>
    rw [runX] at out sim₁ nc
    cases runY : y wu with
    | ok u' wu₁ => rw [runY] at out; rcases out with out | ⟨out, -⟩ <;> cases out
    | error e' wu₁ =>
      rw [runY] at out sim₁
      rcases out with out | ⟨out, -⟩ <;> cases out
      exact (refines_reraise _ e).2 wc₁ wu₁ sim₁ nc

end Composition

/-! ### The cache path, evaluated -/

section CachePath

variable {σ : Type} (d : GnocchiDispatcher σ τ) (c : CacheClient τ)

theorem hashes_gnocchiCall (call : Call) : Hashes (d.gnocchiCall call) :=
  hashes_of_eq fun w => by
    simp only [gnocchiCall]
    split <;> rfl

theorem checkResourceCache_eq {resource : Dict} (safe : CacheSafe resource) (key : String)
    (w : World σ τ) :
    d.checkResourceCache c key resource w =
      .ok (if c.get key w.cache ≠ some (d.hash (resource.delItem "metrics"))
          then some (d.hash (resource.delItem "metrics")) else none)
        { w with hashed := w.hashed ++ [resource.delItem "metrics"] } := by
  simp only [checkResourceCache, bind_apply, attributeHash, safe.hashable, if_true, getCache,
    pure_apply]

theorem hashes_setCache (key : String) (value : UInt64) (ttl : Nat) :
    Hashes (setCache c key value ttl : DispatchM σ τ Unit) :=
  hashes_of_eq fun _ => rfl

theorem hashes_whenHash (h : Option UInt64) {body : UInt64 → DispatchM σ τ Unit}
    (hBody : ∀ h, Hashes (body h)) : Hashes (whenHash h body) := by
  unfold whenHash
  split
  · split
    · exact hBody _
    · exact hashes_pure ()
  · exact hashes_pure ()

theorem hashes_cacheGuarded {resource : Dict} (safe : CacheSafe resource) {action : DispatchM σ τ Unit}
    (hAction : Hashes action) : Hashes (d.cacheGuarded c resource action) := by
  obtain ⟨rid, id⟩ := safe.id
  have check : ∀ key, Hashes (d.checkResourceCache c key resource) := fun key w => by
    rw [checkResourceCache_eq d c safe]
    exact List.prefix_append _ _
  simp only [cacheGuarded, cacheKeyOf, id]
  exact (hashes_pure _).bind fun key => (check key).bind fun _ => hashes_whenHash _ fun _ =>
    (check key).bind fun _ => hashes_whenHash _ fun _ => hAction.bind fun _ => hashes_setCache c _ _ _

variable {resource : Dict} (safe : CacheSafe resource) {rid : String}
  (id : resource.get? "id" = some (.str rid)) (action : DispatchM σ τ Unit) (w : World σ τ)
include safe id

/-- Memcache holds the body's hash: nothing but the hashing happens. -/
theorem cacheGuarded_hit
    (hit : c.get (d.cacheKeyMangler rid) w.cache = some (d.hash (resource.delItem "metrics"))) :
    d.cacheGuarded c resource action w =
      .ok () { w with hashed := w.hashed ++ [resource.delItem "metrics"] } := by
  simp [cacheGuarded, cacheKeyOf, id, bind_apply, checkResourceCache_eq d c safe, hit, whenHash]

/-- The body hashes to `0`, which `if attribute_hash:` reads as false. -/
theorem cacheGuarded_falsy (zero : d.hash (resource.delItem "metrics") = 0) :
    d.cacheGuarded c resource action w =
      .ok () { w with hashed := w.hashed ++ [resource.delItem "metrics"] } := by
  by_cases hit : c.get (d.cacheKeyMangler rid) w.cache = some 0 <;>
    simp [cacheGuarded, cacheKeyOf, id, bind_apply, checkResourceCache_eq d c safe, whenHash, zero, hit]

/-- Memcache misses: both checks hash the body, then the action runs and the hash is
remembered. -/
theorem cacheGuarded_miss
    (miss : c.get (d.cacheKeyMangler rid) w.cache ≠ some (d.hash (resource.delItem "metrics")))
    (nonzero : d.hash (resource.delItem "metrics") ≠ 0) :
    d.cacheGuarded c resource action w =
      (action >>= fun _ => setCache c (d.cacheKeyMangler rid) (d.hash (resource.delItem "metrics")) 3600)
        { w with hashed := w.hashed ++ [resource.delItem "metrics", resource.delItem "metrics"] } := by
  simp [cacheGuarded, cacheKeyOf, id, bind_apply, checkResourceCache_eq d c safe, miss, whenHash,
    nonzero]

end CachePath

/-! ### The dispatcher's statements -/

section Statements

theorem refines_gnocchiCall (backend : d.gnocchi = Store.apply) {call : Call}
    (notUpdate : call.isUpdate = false) :
    d.Refines c Eq (d.gnocchiCall call) (d.uncached.gnocchiCall call) := by
  refine ⟨hashes_gnocchiCall d call, fun wc wu sim _ => ?_⟩
  have keeps : wc.remote.Keeps (Store.apply call wu.remote).2 := by
    rw [sim.remote]
    exact Store.keeps_apply _ notUpdate
  show outcome (d.gnocchiCall call wc) = outcome (d.gnocchiCall call wu) ∧
    d.Sim c (final (d.gnocchiCall call wc)) (final (d.gnocchiCall call wu))
  simp only [gnocchiCall, backend, sim.remote]
  cases happ : Store.apply call wu.remote with
  | mk r store' =>
    rw [happ] at keeps
    cases r with
    | ok u => cases u; exact ⟨rfl, sim.call call keeps⟩
    | error e => exact ⟨rfl, sim.call call keeps⟩

theorem refines_gnocchiProjectId (keystone : ∀ name s, (d.tenantsFind name s).2 = s) :
    d.Refines c Eq d.gnocchiProjectId d.uncached.gnocchiProjectId := by
  refine ⟨hashes_of_eq fun w => ?_, fun wc wu sim _ => ?_⟩
  · simp only [gnocchiProjectId]
    split
    · rfl
    · split <;> rfl
  · show outcome (d.gnocchiProjectId wc) = outcome (d.gnocchiProjectId wu) ∧
      d.Sim c (final (d.gnocchiProjectId wc)) (final (d.gnocchiProjectId wu))
    have sound := sim.remote ▸ sim.sound
    simp only [gnocchiProjectId, sim.projectId, sim.remote]
    cases wu.gnocchiProjectId with
    | some pid => exact ⟨rfl, sim⟩
    | none =>
      have same := keystone d.filterProject wu.remote
      cases found : d.tenantsFind d.filterProject wu.remote with
      | mk r remote =>
        rw [found] at same
        obtain rfl : remote = wu.remote := same
        cases r with
        | ok pid => exact ⟨rfl, ⟨rfl, rfl, sim.calls, sim.posts, sound⟩⟩
        | error e => exact ⟨rfl, ⟨rfl, rfl, sim.calls, sim.posts, sound⟩⟩

theorem refines_isGnocchiActivity (keystone : ∀ name s, (d.tenantsFind name s).2 = s) (s : Sample) :
    d.Refines c Eq (d.isGnocchiActivity s) (d.uncached.isGnocchiActivity s) := by
  have pid := refines_gnocchiProjectId (c := c) keystone
  unfold isGnocchiActivity
  exact Refines.ite (fun _ => pid.bind (fun _ => rfl) fun _ => Refines.ite (fun _ => refines_pure _)
    fun _ => pid.bind (fun _ => rfl) fun _ => Refines.ite (fun _ => refines_liftExcept _)
      fun _ => refines_pure _) fun _ => refines_pure _

theorem refines_dropGnocchiActivity (keystone : ∀ name s, (d.tenantsFind name s).2 = s) :
    ∀ data : List Sample,
      d.Refines c Eq (d.dropGnocchiActivity data) (d.uncached.dropGnocchiActivity data)
  | [] => refines_pure []
  | s :: data => (refines_isGnocchiActivity keystone s).bind (fun _ => rfl) fun _ =>
    (refines_dropGnocchiActivity keystone data).bind (fun _ => rfl) fun _ => refines_pure _

theorem reraise_ok {σ : Type} {e caught : PyExc} {w w' : World σ τ}
    (run : (if e = caught then pure () else throw e : DispatchM σ τ Unit) w = .ok () w') :
    e = caught ∧ w' = w := by
  split at run
  · cases run; exact ⟨‹_›, rfl⟩
  · cases run

/-- A `create_metric` block that returned, run again, returns having made at most the same
call. -/
theorem createMetric_again (d' : GnocchiDispatcher Store τ) (backend : d'.gnocchi = Store.apply)
    {rt m : String} {resource : Dict} {w w' : World Store τ}
    (run : d'.createMetric rt resource m w = .ok () w') :
    ∃ added : List Call, (∀ call ∈ added, call.isPost = false) ∧
      d'.createMetric rt resource m w' = .ok () { w' with calls := w'.calls ++ added } := by
  simp only [createMetric, tryCatch_apply, bind_apply] at run ⊢
  cases hp : metricArchivePolicy resource m with
  | error e =>
    simp only [hp, Dispatcher.liftExcept, throw_apply] at run ⊢
    obtain ⟨rfl, rfl⟩ := reraise_ok run
    exact ⟨[], by simp, by rw [if_pos rfl, List.append_nil]; rfl⟩
  | ok p =>
    cases hv : resource.getItem "id" with
    | error e =>
      simp only [hp, hv, Dispatcher.liftExcept, throw_apply, pure_apply] at run ⊢
      obtain ⟨rfl, rfl⟩ := reraise_ok run
      exact ⟨[], by simp, by rw [if_pos rfl, List.append_nil]; rfl⟩
    | ok v =>
      simp only [hp, hv, Dispatcher.liftExcept, pure_apply, gnocchiCall, backend] at run ⊢
      refine ⟨[.createMetric rt v m p], by simp [Call.isPost], ?_⟩
      rcases happ : Store.apply (.createMetric rt v m p) w.remote with ⟨e | ⟨⟩, store'⟩
      · rw [happ] at run
        obtain ⟨rfl, rfl⟩ := reraise_ok run
        have again := Store.apply_createMetric_again w.remote (.inr (by rw [happ]))
        rw [happ] at again
        simp [again]
      · have again := Store.apply_createMetric_again w.remote (.inl (by rw [happ]))
        rw [happ] at again run
        cases run
        simp [again]

theorem refines_createMetric (backend : d.gnocchi = Store.apply) (resourceType : String)
    (resource : Dict) (metricName : String) :
    d.Refines c Eq (d.createMetric resourceType resource metricName)
      (d.uncached.createMetric resourceType resource metricName) :=
  Refines.tryCatch (fun _ => rfl) ((refines_liftExcept _).bind (fun _ => rfl) fun _ =>
      (refines_liftExcept _).bind (fun _ => rfl) fun _ => refines_gnocchiCall backend rfl)
    fun e => refines_reraise .metricAlreadyExists e

/-- The cache-guarded call against the plain one, from simulating worlds: memcache misses
and both make the call to the same effect, or it hits and the cached statement only hashes
a body that the backend already holds. -/
theorem cacheGuarded_step (backend : d.gnocchi = Store.apply) (lawful : c.Lawful) {call : Call}
    {resource : Dict} {rid : String} (safe : CacheSafe resource)
    (id : resource.get? "id" = some (.str rid))
    (after : ∀ store : Store, (Store.apply call store).1 = .ok () →
      (Store.apply call store).2.Holds rid (resource.delItem "metrics") ∧
        ∀ rid' ≠ rid, (Store.apply call store).2.resources rid' = store.resources rid')
    {wc wu : World Store τ} (sim : d.Sim c wc wu) :
    d.RefinesAt c Eq (d.cacheGuarded c resource (d.gnocchiCall call)) (d.uncached.gnocchiCall call)
        wc wu ∨
      (d.cacheGuarded c resource (d.gnocchiCall call) wc =
          .ok () { wc with hashed := wc.hashed ++ [resource.delItem "metrics"] } ∧
        (d.NoCollision (wc.hashed ++ [resource.delItem "metrics"]) →
          wu.remote.Holds rid (resource.delItem "metrics"))) := by
  have idR : (resource.delItem "metrics").get? "id" = some (.str rid) := by simp [id]
  by_cases hit : c.get (d.cacheKeyMangler rid) wc.cache = some (d.hash (resource.delItem "metrics"))
  · refine .inr ⟨cacheGuarded_hit d c safe id _ wc hit, fun nc => ?_⟩
    obtain ⟨R, mem, hash, rid', id', -, holds⟩ := sim.sound_remote _ _ hit
    have same : R.SameItems (resource.delItem "metrics") :=
      (nc R (List.mem_append_left _ mem)).2 _ (List.mem_append_right _ (List.mem_singleton_self _)) hash
    rw [same, idR] at id'
    cases id'
    exact holds.of_sameItems same
  · refine .inl fun nc => ?_
    by_cases zero : d.hash (resource.delItem "metrics") = 0
    · rw [cacheGuarded_falsy d c safe id _ wc zero] at nc
      exact absurd zero (nc _ (List.mem_append_right _ (List.mem_singleton_self _))).1
    · rw [cacheGuarded_miss d c safe id _ wc hit zero, bind_apply]
      simp only [gnocchiCall, uncached_gnocchi, backend, sim.remote]
      have posts : postCalls (wc.calls ++ [call]) = postCalls (wu.calls ++ [call]) := by
        rw [postCalls_append, postCalls_append, sim.posts]
      rcases happ : Store.apply call wu.remote with ⟨e | ⟨⟩, store'⟩
      · obtain rfl := Store.apply_error happ
        exact ⟨rfl, rfl, sim.projectId, sim.calls.append (List.Sublist.refl _), posts,
          sim.sound_remote.keeps (List.prefix_append _ _) (Store.keeps_refl _)⟩
      · obtain ⟨holds, others⟩ := after wu.remote (by rw [happ])
        rw [happ] at holds others
        exact ⟨rfl, rfl, sim.projectId, sim.calls.append (List.Sublist.refl _), posts,
          sim.sound_remote.set lawful idR (by simp) (List.prefix_append _ _) holds others 3600⟩

/-- `_ensure_resource_and_metric`: where memcache hits, the uncached dispatcher's
`create_resource` finds the resource and raises `ResourceAlreadyExists`, and its two
`create_metric` blocks end where the cached dispatcher's one does. -/
theorem refines_ensureResourceAndMetric (backend : d.gnocchi = Store.apply) (cached : d.cache = some c)
    (lawful : c.Lawful) {resourceType metricName : String} {resource : Dict} {rid : String}
    (safe : CacheSafe resource) (id : resource.get? "id" = some (.str rid)) :
    d.Refines c Eq (d.ensureResourceAndMetric resourceType resource metricName)
      (d.uncached.ensureResourceAndMetric resourceType resource metricName) := by
  have metric := refines_createMetric (c := c) backend resourceType resource metricName
  have handler : ∀ e, d.Refines c Eq
      (if e = .resourceAlreadyExists then d.createMetric resourceType resource metricName else throw e)
      (if e = .resourceAlreadyExists then d.uncached.createMetric resourceType resource metricName
        else throw e) :=
    fun e => Refines.ite (fun _ => metric) fun _ => refines_throw e
  have create : d.createResource resourceType resource =
      d.cacheGuarded c resource (d.gnocchiCall (.createResource resourceType resource)) := by
    simp only [createResource, cached]
  unfold ensureResourceAndMetric
  rw [create]
  refine ⟨((hashes_cacheGuarded d c safe (hashes_gnocchiCall d _)).tryCatch fun e => (handler e).1).bind
    fun _ => metric.1, fun wc wu sim => ?_⟩
  rcases cacheGuarded_step backend lawful safe id (fun store ok => Store.holds_create id ok) sim with
    step | ⟨run, holds⟩
  · exact (step.tryCatch (fun _ => rfl) handler).bind_of (fun _ => rfl) (P := fun _ => True)
      (fun _ _ _ => trivial) fun _ _ => metric
  · intro nc
    rw [bind_apply, tryCatch_apply, run] at nc ⊢
    dsimp only at nc ⊢
    obtain ⟨r, found, -⟩ :=
      holds (nc.of_prefix (metric.1 { wc with hashed := wc.hashed ++ [resource.delItem "metrics"] }))
    have rae : d.uncached.createResource resourceType resource wu =
        .error .resourceAlreadyExists { wu with calls := wu.calls ++ [.createResource resourceType resource] } := by
      show d.gnocchiCall _ wu = _
      simp [gnocchiCall, backend, Store.apply, id, found]
    rw [bind_apply, tryCatch_apply, rae]
    dsimp only
    rw [if_pos rfl]
    have sim₁ := (sim.append_hashed [resource.delItem "metrics"]).append_calls
      [.createResource resourceType resource] (by simp [Call.isPost])
    obtain ⟨out, sim₂⟩ := metric.2 _ _ sim₁ nc
    cases runU : d.uncached.createMetric resourceType resource metricName
        { wu with calls := wu.calls ++ [.createResource resourceType resource] } with
    | ok u wu₂ =>
      rw [runU] at out sim₂
      obtain ⟨added, notPosts, again⟩ := createMetric_again d.uncached backend runU
      dsimp only
      rw [again]
      exact ⟨out, sim₂.append_calls added notPosts⟩
    | error e wu₂ =>
      rw [runU] at out sim₂
      exact ⟨out, sim₂⟩

theorem refines_postMeasure (backend : d.gnocchi = Store.apply) (cached : d.cache = some c)
    (lawful : c.Lawful) {resourceType resourceId metricName : String} {measures : List Measure}
    {resource : Dict} {rid : String} (safe : CacheSafe resource)
    (id : resource.get? "id" = some (.str rid)) :
    d.Refines c Eq (d.postMeasure resourceType resourceId metricName measures resource)
      (d.uncached.postMeasure resourceType resourceId metricName measures resource) :=
  Refines.tryCatch (fun _ => rfl) (refines_gnocchiCall backend rfl) fun e =>
    Refines.ite (fun _ => (refines_ensureResourceAndMetric backend cached lawful safe id).bind
        (fun _ => rfl) fun _ => Refines.tryCatch (fun _ => rfl) (refines_gnocchiCall backend rfl)
          fun e => refines_reraise .noSuchMetric e)
      fun _ => refines_throw e

theorem refines_processMetric (backend : d.gnocchi = Store.apply) (cached : d.cache = some c)
    (lawful : c.Lawful) (resourceId : String) {acc : ResourceAcc} (hacc : AccOk acc)
    (metricName : String) {samples : List Sample} (batch : d.PlainBatch samples) :
    d.Refines c Eq (d.processMetric resourceId acc metricName samples)
      (d.uncached.processMetric resourceId acc metricName samples) := by
  cases looked : d.getResourceDefinition metricName with
  | error e =>
    rw [processMetric_raises d looked, processMetric_raises d.uncached looked]
    exact refines_throw e
  | ok found =>
  cases handled : d.handledBy metricName with
  | none =>
    rw [processMetric_unhandled d looked handled, processMetric_unhandled d.uncached looked handled]
    exact refines_pure acc
  | some rd =>
    cases samples with
    | nil =>
      rw [processMetric_nil d handled, processMetric_nil d.uncached handled]
      exact refines_throw _
    | cons first rest =>
      rw [processMetric_handled d handled, processMetric_handled d.uncached handled]
      have plain := d.plain_gather (d.mem_of_handledBy handled) _ _ batch hacc.plain
      obtain ⟨user, project, -⟩ := batch first (List.mem_cons_self _ _)
      exact (refines_postMeasure backend cached lawful (resourceDict_cacheSafe plain user project)
        (resourceDict_id plain)).bind (fun _ => rfl) fun _ => refines_pure _

theorem refines_processMetrics (backend : d.gnocchi = Store.apply) (cached : d.cache = some c)
    (lawful : c.Lawful) (resourceId : String) :
    ∀ (groups : List (String × List Sample)) (acc : ResourceAcc), AccOk acc →
      (∀ g ∈ groups, d.PlainBatch g.2) →
      d.Refines c Eq (d.processMetrics resourceId acc groups) (d.uncached.processMetrics resourceId acc groups)
  | [], acc, _, _ => refines_pure acc
  | (m, _) :: rest, _, hacc, batch =>
    (refines_processMetric backend cached lawful resourceId hacc m (batch _ (List.mem_cons_self _ _))).bind_of
      (fun _ => rfl) (P := AccOk) (fun _ _ _ run => d.processMetric_accOk hacc (batch _ (List.mem_cons_self _ _)) run)
      fun acc' hacc' => refines_processMetrics backend cached lawful resourceId rest acc' hacc'
        fun g member => batch g (List.mem_cons_of_mem _ member)

end Statements

/-! ### The loop of `_process_resource` -/

section Loop

variable {σ : Type} (d : GnocchiDispatcher σ τ)

/-- No definition names an attribute `user_id` or `project_id`, which `_process_resource`
puts in the body itself. -/
def OwnAttributes : Prop :=
  ∀ rd ∈ d.resourcesDefinition, ∀ a ∈ rd.attributeDefs, a.1 ≠ "user_id" ∧ a.1 ≠ "project_id"

/-- What the loop of `_process_resource` keeps for the cache path: the gathered attributes
set none of `ownKeys`, and the remembered body is resource `resourceId`'s and is what
`update_resource` sends. -/
structure AccSends (resourceId : String) (acc : ResourceAcc) : Prop where
  avoids : ∀ kv ∈ acc.resourceExtra, kv.1 ∉ ownKeys
  last : ∀ rt resource, acc.last = some (rt, resource) →
    resource.get? "id" = some (.str resourceId) ∧ Sends (resource.delItem "metrics") acc.resourceExtra

theorem accSends_init (resourceId : String) : AccSends resourceId ⟨[], none⟩ :=
  ⟨fun _ h => absurd h (List.not_mem_nil _), fun _ _ h => by cases h⟩

variable {d}

theorem processMetric_accSends (own : d.OwnAttributes) {resourceId metricName : String}
    {acc acc' : ResourceAcc} {samples : List Sample} {w w' : World σ τ} (hacc : AccOk acc)
    (sends : AccSends resourceId acc) (batch : d.PlainBatch samples)
    (run : d.processMetric resourceId acc metricName samples w = .ok acc' w') : AccSends resourceId acc' := by
  rcases d.processMetric_returned run with rfl | ⟨rd, first, rest, handled, rfl, rfl⟩
  · exact sends
  · have member := d.mem_of_handledBy handled
    have plain := d.plain_gather member _ _ batch hacc.plain
    have avoids : ∀ kv ∈ gather rd acc.resourceExtra (first :: rest), kv.1 ∉ ownKeys := fun kv h => by
      rcases mem_gather rd _ _ h with h | ⟨s, hs, h⟩
      · exact sends.avoids kv h
      · obtain ⟨a, ha, same⟩ := rd.mem_attributes h
        have named := own rd member a ha
        have notId := ((batch s hs).2.2 rd member kv h).2.1
        rw [← same] at notId ⊢
        simp only [ownKeys, List.mem_cons, List.mem_singleton, List.not_mem_nil, or_false, not_or]
        exact ⟨notId, named⟩
    exact ⟨avoids, fun _ _ h => by cases h; exact ⟨resourceDict_id plain, sends_resourceDict plain avoids⟩⟩

theorem processMetrics_accSends (own : d.OwnAttributes) {resourceId : String} :
    ∀ {groups : List (String × List Sample)} {acc acc' : ResourceAcc} {w w' : World σ τ},
      AccOk acc → AccSends resourceId acc → (∀ g ∈ groups, d.PlainBatch g.2) →
      d.processMetrics resourceId acc groups w = .ok acc' w' → AccSends resourceId acc'
  | [], _, _, _, _, _, sends, _, run => by cases run; exact sends
  | (m, samples) :: rest, acc, acc', w, w', hacc, sends, batch, run => by
    simp only [processMetrics, bind_apply] at run
    split at run
    · rename_i run₁
      have first := batch _ (List.mem_cons_self _ _)
      exact processMetrics_accSends own (d.processMetric_accOk hacc first run₁)
        (processMetric_accSends own hacc sends first run₁)
        (fun g member => batch g (List.mem_cons_of_mem _ member)) run
    · cases run

end Loop

/-! ### Resources and batches -/

section Batches

/-- The attribute reconciliation: where memcache hits, the uncached dispatcher's
`update_resource` sends attributes the backend already has, and changes nothing, or raises
`UnexpectedError` on a resource of another type. -/
theorem refines_reconcile (backend : d.gnocchi = Store.apply) (cached : d.cache = some c)
    (lawful : c.Lawful) {resourceId : String} {acc : ResourceAcc} (hacc : AccOk acc)
    (sends : AccSends resourceId acc) :
    d.Refines c UpToUnexpected (d.reconcile resourceId acc) (d.uncached.reconcile resourceId acc) := by
  unfold reconcile
  refine Refines.ite (fun _ => (refines_pure ()).mono fun _ _ h => .inl h) fun _ => ?_
  cases last : acc.last with
  | none => exact (refines_throw _).mono fun _ _ h => .inl h
  | some p =>
    obtain ⟨rt, resource⟩ := p
    obtain ⟨id, sendsR⟩ := sends.last rt resource last
    have safe := hacc.last rt resource last
    simp only [cached, uncached_cache]
    refine ⟨hashes_cacheGuarded d c safe (hashes_gnocchiCall d _), fun wc wu sim => ?_⟩
    rcases cacheGuarded_step backend lawful safe id (fun store ok =>
      ⟨Store.holds_update sendsR ok, fun _ other => Store.apply_update_other store other⟩) sim with
      step | ⟨run, holds⟩
    · exact step.mono fun _ _ h => .inl h
    · intro nc
      rw [run] at nc ⊢
      obtain ⟨same, returned⟩ := Store.apply_update_of_holds rt (holds nc) sendsR
      simp only [gnocchiCall, uncached_gnocchi, backend]
      have sim₁ := (sim.append_hashed [resource.delItem "metrics"]).append_calls
        [.updateResource rt resourceId acc.resourceExtra] (by simp [Call.isPost])
      cases happ : Store.apply (.updateResource rt resourceId acc.resourceExtra) wu.remote with
      | mk r store' =>
        rw [happ] at same returned
        obtain rfl : store' = wu.remote := same
        rcases returned with rfl | rfl
        · exact ⟨.inl rfl, sim₁⟩
        · exact ⟨.inr ⟨rfl, rfl⟩, sim₁⟩

theorem refines_processResource (backend : d.gnocchi = Store.apply) (cached : d.cache = some c)
    (lawful : c.Lawful) (own : d.OwnAttributes) (resourceId : String)
    {groups : List (String × List Sample)} (hGroups : d.GroupsOk groups) :
    d.Refines c Eq (d.processResource resourceId groups) (d.uncached.processResource resourceId groups) := by
  have batch : ∀ g ∈ groups, d.PlainBatch g.2 := fun g member => (hGroups g member).1
  exact refines_logAndIgnore ((refines_processMetrics backend cached lawful resourceId groups _
    accOk_init batch).bind_of (fun _ => .inl rfl) (P := fun acc => AccOk acc ∧ AccSends resourceId acc)
    (fun _ _ _ run => ⟨d.processMetrics_accOk accOk_init batch run,
      processMetrics_accSends own accOk_init (accSends_init resourceId) batch run⟩)
    fun _ hacc => refines_reconcile backend cached lawful hacc.1 hacc.2)

theorem refines_processResources (backend : d.gnocchi = Store.apply) (cached : d.cache = some c)
    (lawful : c.Lawful) (own : d.OwnAttributes) :
    ∀ resources : List (String × List Sample),
      (∀ x ∈ resources, d.GroupsOk (groupby Sample.counterName x.2)) →
      d.Refines c Eq (d.processResources resources) (d.uncached.processResources resources)
  | [], _ => refines_pure ()
  | (r, _) :: rest, ok =>
    (refines_processResource backend cached lawful own r (ok _ (List.mem_cons_self _ _))).bind
      (fun _ => rfl) fun _ => refines_processResources backend cached lawful own rest
        fun x member => ok x (List.mem_cons_of_mem _ member)

/-- `record_metering_data` with a cache refines it without. -/
theorem refines_recordMeteringData (backend : d.gnocchi = Store.apply) (cached : d.cache = some c)
    (lawful : c.Lawful) (own : d.OwnAttributes)
    (keystone : ∀ name s, (d.tenantsFind name s).2 = s) {data : List Sample} (plain : d.PlainBatch data) :
    d.Refines c Eq (d.recordMeteringData data) (d.uncached.recordMeteringData data) :=
  (refines_dropGnocchiActivity keystone data).bind_of (fun _ => rfl)
    (P := fun kept => ∀ s ∈ kept, s ∈ data) (fun _ _ _ run => d.dropGnocchiActivity_sub run)
    fun _ sub => refines_processResources backend cached lawful own _ (d.resourceGroups_plain plain sub)

end Batches

/-! ### Runs over many batches -/

/-- The dispatcher fed batch after batch, as the collector does: what each call raised, if
anything, and the world the batches leave. -/
def recordBatches {σ : Type} (d : GnocchiDispatcher σ τ) :
    List (List Sample) → World σ τ → List (Option PyExc) × World σ τ
  | [], w => ([], w)
  | data :: batches, w =>
    let r := (d.recordMeteringData data).run w
    let rest := d.recordBatches batches (final r)
    (raised r :: rest.1, rest.2)

theorem raised_eq_of_outcome {σ α : Type} {r r' : EStateM.Result PyExc σ α}
    (same : outcome r = outcome r') : raised r = raised r' := by
  cases r <;> cases r' <;> cases same <;> rfl

section Runs

variable (backend : d.gnocchi = Store.apply) (cached : d.cache = some c) (lawful : c.Lawful)
  (own : d.OwnAttributes) (keystone : ∀ name s, (d.tenantsFind name s).2 = s)
include backend cached lawful own keystone

theorem recordBatches_hashed :
    ∀ batches : List (List Sample), (∀ data ∈ batches, d.PlainBatch data) →
      ∀ w, w.hashed <+: (d.recordBatches batches w).2.hashed
  | [], _, _ => List.prefix_refl _
  | data :: batches, plain, w =>
    ((refines_recordMeteringData backend cached lawful own keystone
      (plain data (List.mem_cons_self _ _))).1 w).trans
      (recordBatches_hashed batches (fun x member => plain x (List.mem_cons_of_mem _ member)) _)

/-- The run lemma: from simulating worlds, the two dispatchers raise alike on every batch
and end in simulating worlds, unless the hashes of the run collide. -/
theorem recordBatches_sim :
    ∀ batches : List (List Sample), (∀ data ∈ batches, d.PlainBatch data) →
      ∀ wc wu, d.Sim c wc wu → d.NoCollision (d.recordBatches batches wc).2.hashed →
        (d.recordBatches batches wc).1 = (d.uncached.recordBatches batches wu).1 ∧
          d.Sim c (d.recordBatches batches wc).2 (d.uncached.recordBatches batches wu).2
  | [], _, _, _, sim, _ => ⟨rfl, sim⟩
  | data :: batches, plain, wc, wu, sim, nc => by
    have rest := fun x member => plain x (List.mem_cons_of_mem _ member)
    obtain ⟨out, sim₁⟩ := (refines_recordMeteringData backend cached lawful own keystone
      (plain data (List.mem_cons_self _ _))).2 wc wu sim
        (nc.of_prefix (recordBatches_hashed backend cached lawful own keystone batches rest _))
    obtain ⟨outs, sim₂⟩ := recordBatches_sim batches rest _ _ sim₁ nc
    exact ⟨congrArg₂ List.cons (raised_eq_of_outcome out) outs, sim₂⟩

end Runs

/-- The cache is an optimisation. Fed any sequence of batches from an empty memcache,
against a `Store` backend that keystone does not change, the dispatcher with a cache
raises on the same batches with the same exceptions as the one without, leaves the
backend in the same state, and makes the same posts and a subset of the other calls —
provided the batches are plain, no definition names an attribute `user_id` or
`project_id`, and two bodies hashed during the run hash alike only when they have the
same items, and none hashes to `0`. -/
theorem cache_is_optimisation (d : GnocchiDispatcher Store τ) (c : CacheClient τ)
    (cached : d.cache = some c) (lawful : c.Lawful) (backend : d.gnocchi = Store.apply)
    (keystone : ∀ name s, (d.tenantsFind name s).2 = s) (own : d.OwnAttributes)
    (batches : List (List Sample)) (plain : ∀ data ∈ batches, d.PlainBatch data)
    (w : World Store τ) (empty : ∀ key, c.get key w.cache = none)
    (noCollision : d.NoCollision (d.recordBatches batches w).2.hashed) :
    (d.recordBatches batches w).1 = (d.uncached.recordBatches batches w).1 ∧
      (d.recordBatches batches w).2.remote = (d.uncached.recordBatches batches w).2.remote ∧
      (d.recordBatches batches w).2.calls.Sublist (d.uncached.recordBatches batches w).2.calls ∧
      postCalls (d.recordBatches batches w).2.calls = postCalls (d.uncached.recordBatches batches w).2.calls := by
  have start : d.Sim c w w :=
    ⟨rfl, rfl, List.Sublist.refl _, rfl, fun key h got => by rw [empty] at got; cases got⟩
  obtain ⟨outs, sim⟩ :=
    recordBatches_sim backend cached lawful own keystone batches plain w w start noCollision
  exact ⟨outs, sim.remote, sim.calls, sim.posts⟩

end GnocchiDispatcher

/-! ### A memcache, and two runs -/

/-- A memcache that never expires an entry: a list of `(key, value)`, newest first. -/
def listCache : CacheClient (List (String × UInt64)) :=
  ⟨fun key t => t.lookup key, fun key value _ t => (key, value) :: t⟩

theorem listCache_lawful : listCache.Lawful := by
  intro key key' value ttl t h got
  simp only [listCache, List.lookup_cons] at got
  by_cases same : key = key'
  · subst same
    simp only [beq_self_eq_true] at got
    exact .inl ⟨rfl, (Option.some.inj got).symm⟩
  · rw [beq_false_of_ne same] at got
    exact .inr ⟨same, got⟩

/-- A definition of `instance` for `cpu`, with one attribute, `flavor`, read from the
sample's metadata. -/
def flavorDefinition : ResourcesDefinition :=
  ⟨"instance", ["cpu"], [("flavor", fun s => (s.resourceMetadata.get? "flavor").getD .none)], none,
    false, none⟩

/-- A `cpu` sample of resource `r1`, with its `flavor`. -/
def flavorSample (timestamp flavor : Int) : Sample :=
  ⟨"r1", "cpu", .none, .none, .int timestamp, .int 10, [("flavor", .int flavor)]⟩

/-- The dispatcher with a memcache, over a `Store`, with the attribute hash `hash`. -/
def cachingDispatcher (hash : Dict → UInt64) : GnocchiDispatcher Store (List (String × UInt64)) :=
  ⟨false, "service", [flavorDefinition], Store.apply, fun _ s => (.error .unexpectedError, s),
    some listCache, id, hash⟩

/-- An empty backend and an empty memcache. -/
def emptyWorld : World Store (List (String × UInt64)) := ⟨Store.empty, [], none, [], []⟩

/-- CPython's `hash` of an `int` that fits a machine word: the value itself, except `-1`,
which the C API keeps for errors and which hashes as `-2`. -/
def intHash (n : Int) : Int := if n = -1 then -2 else n

/-- The attribute hash of bodies that differ only in their `flavor`: CPython's hash of the
flavor, as a word with the sign in the low bit. Like CPython's hash of the body's items, it
hashes the bodies with `flavor` `-1` and `-2` alike. -/
def flavorHash (R : Dict) : UInt64 :=
  match R.get? "flavor" with
  | some (.int n) => UInt64.ofNat (2 * (intHash n).natAbs + if intHash n < 0 then 1 else 0)
  | _ => 1

namespace GnocchiDispatcher

/-- Two batches whose bodies hash apart: the refinement applies, and both dispatchers leave
the same backend. -/
theorem distinct_hashes_same_backend :
    (cachingDispatcher flavorHash).NoCollision
        ((cachingDispatcher flavorHash).recordBatches [[flavorSample 1 (-1)], [flavorSample 2 (-3)]]
          emptyWorld).2.hashed ∧
      ((cachingDispatcher flavorHash).recordBatches [[flavorSample 1 (-1)], [flavorSample 2 (-3)]]
          emptyWorld).2.remote =
        ((cachingDispatcher flavorHash).uncached.recordBatches
          [[flavorSample 1 (-1)], [flavorSample 2 (-3)]] emptyWorld).2.remote := by
  have noCollision : (cachingDispatcher flavorHash).NoCollision
      ((cachingDispatcher flavorHash).recordBatches [[flavorSample 1 (-1)], [flavorSample 2 (-3)]]
        emptyWorld).2.hashed := by
    unfold NoCollision
    decide
  exact ⟨noCollision, (cache_is_optimisation _ listCache rfl listCache_lawful rfl (fun _ _ => rfl)
    (by unfold OwnAttributes; decide) _ (by unfold PlainBatch PlainDict; decide) emptyWorld
    (fun _ => rfl) noCollision).2.1⟩

/-- CPython hashes `-1` and `-2` alike, and so the bodies with `flavor` `-1` and `-2`: the
second batch's `update_resource` is skipped, and the backend keeps `flavor = -1` where the
dispatcher without a cache sets `-2`, though both return on every batch. -/
theorem cache_hides_colliding_update :
    ((cachingDispatcher flavorHash).recordBatches [[flavorSample 1 (-1)], [flavorSample 2 (-2)]]
        emptyWorld).1 = [none, none] ∧
      ((cachingDispatcher flavorHash).uncached.recordBatches
        [[flavorSample 1 (-1)], [flavorSample 2 (-2)]] emptyWorld).1 = [none, none] ∧
      (((cachingDispatcher flavorHash).recordBatches [[flavorSample 1 (-1)], [flavorSample 2 (-2)]]
        emptyWorld).2.remote.find "instance" "r1").bind (·.attributes "flavor") = some (.int (-1)) ∧
      (((cachingDispatcher flavorHash).uncached.recordBatches
        [[flavorSample 1 (-1)], [flavorSample 2 (-2)]] emptyWorld).2.remote.find "instance" "r1").bind
          (·.attributes "flavor") = some (.int (-2)) := by
  decide

end GnocchiDispatcher

end Ceilometer.Dispatcher
