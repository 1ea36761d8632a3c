import Mathlib.Data.List.Basic

/-!
# Instance discovery

`InstanceDiscovery.discover` of `compute/discovery.py`. The first call lists every server
on the agent's host; a later call lists, through nova's `changes-since` filter, the servers
on the host updated since `last_run`, once `(utcnow() - last_run).seconds` exceeds the
period. Each listed server is popped from `self.instances` when its `vm_state` is `deleted`
or `error`, and upserted otherwise; `last_run` is then set to a second `utcnow()`.

Nova is a separate service: its inventory changes while the agent runs, also between the
query of a call and its final `utcnow()`. A `Cloud` interleaves the agent's two steps
(`query` and `stamp`) with changes to the inventory and the passing of time, and
`discover` is the two steps with nothing in between. `instance_get_all_by_host` is not
among the sources: it lists the servers on the host, and, given `since`, those whose
`updated_at` is at or after it.

## Main results

- `tracked_last_record`: over every run of `discover`, whatever nova answers, `self.instances`
  maps an id to the last record nova returned for it, unless that record is deleted or in
  error.
- `discover_returns_live_once`: over every run, whatever nova answers, each call returns every
  server at most once, and none deleted or in error.
- `query_eq_none_of_lt` and `query_add_day`: a call within the period makes no query, and the
  throttle decides a call a day later as it decides this one, since `timedelta.seconds` drops
  the days; `late_calls_skip_query` gives two calls past the period that make no query.
- `discover_tracks_host`: in a run where no server leaves the agent's host and nothing in
  nova changes while a call is between its query and its final `utcnow()`, after every call
  that enumerates, `self.instances` holds exactly the servers on the host that are neither
  deleted nor in error, with their current records.

## Proof strategy

The loop is a last-writer-wins merge (`get?_trackAll`); along a run, so is the whole
tracked set (`get?_of_discovered`). The invariant `Tracks` says that
between calls, `self.instances` agrees with a full enumeration on every server not updated
since `last_run`, and that a call's enumeration brings it in full agreement; each event
keeps it.
-/

namespace Ceilometer.Compute

/-- A nova server: its `id`, its `OS-EXT-STS:vm_state` attribute when it has one, and the
host and `updated_at` that nova's query reads. -/
structure Server where
  id : String
  vmState : Option String
  host : String
  updatedAt : Int
  deriving DecidableEq, Repr

/-- `getattr(instance, 'OS-EXT-STS:vm_state', None) in ['deleted', 'error']`. -/
def Server.terminal (srv : Server) : Bool :=
  srv.vmState = some "deleted" || srv.vmState = some "error"

/-- `self.instances`: a dict from instance id to server, in insertion order. -/
abbrev Instances := List (String × Server)

namespace Instances

/-- `self.instances.get(key)`. -/
def get? : Instances → String → Option Server
  | [], _ => none
  | (k, v) :: d, key => if k = key then some v else get? d key

/-- `self.instances[key] = v`: replace the entry in place, or append a new one. -/
def setItem : Instances → String → Server → Instances
  | [], key, v => [(key, v)]
  | (k, w) :: d, key, v => if k = key then (key, v) :: d else (k, w) :: setItem d key v

/-- `self.instances.pop(key, None)`. -/
def pop (d : Instances) (key : String) : Instances := d.filter fun kv => kv.1 ≠ key

@[simp] theorem get?_setItem (d : Instances) (k key : String) (v : Server) :
    (d.setItem k v).get? key = if k = key then some v else d.get? key := by
  induction d with
  | nil => rfl
  | cons kw d ih =>
    obtain ⟨k', w⟩ := kw
    by_cases same : k' = k
    · subst same; by_cases h : k' = key <;> simp [setItem, get?, h]
    · simp only [setItem, same, if_false, get?, ih]
      by_cases h : k' = key <;> by_cases h' : k = key <;> simp_all

@[simp] theorem get?_pop (d : Instances) (k key : String) :
    (d.pop k).get? key = if k = key then none else d.get? key := by
  induction d with
  | nil => simp [pop, get?]
  | cons kv d ih =>
    obtain ⟨k', w⟩ := kv
    simp only [pop] at ih ⊢
    by_cases h : k' = k
    · subst h; by_cases h' : k' = key <;> simp_all [get?]
    · by_cases h' : k' = key
      · subst h'; simp [get?, h, Ne.symm h]
      · simp_all [get?]

end Instances

/-- `cfg.CONF.host`, `cfg.CONF.compute.instance_query_period` and
`cfg.CONF.compute.workload_partitioning`. -/
structure DiscoveryConf where
  host : String
  period : Int
  workloadPartitioning : Bool

/-- The attributes `discover` reads and writes: `last_run`, a naive UTC time in
microseconds, and `instances`. -/
structure InstanceDiscovery where
  lastRun : Option Int
  instances : Instances

/-- What `__init__` leaves. -/
def InstanceDiscovery.init : InstanceDiscovery := ⟨none, []⟩

/-- `timedelta.seconds` of a difference of times in microseconds: the seconds within the
last day, with the days dropped, `0 ≤ seconds < 86400`. -/
def timedeltaSeconds (delta : Int) : Int := delta / 1000000 % 86400

/-- One pass of the loop over nova's answer. -/
def trackInstance (instances : Instances) (srv : Server) : Instances :=
  if srv.terminal then instances.pop srv.id else instances.setItem srv.id srv

/-- The loop over nova's answer. -/
def trackAll (instances : Instances) (listing : List Server) : Instances :=
  listing.foldl trackInstance instances

/-- The nova query a call makes: `some none` for `instance_get_all_by_host(host)`,
`some (some since)` for the incremental one, `none` for no query. `now` is what the
`utcnow()` of the `elif` returns. -/
def query (conf : DiscoveryConf) (s : InstanceDiscovery) (now : Int) : Option (Option Int) :=
  match s.lastRun with
  | none => some none
  | some lastRun => if timedeltaSeconds (now - lastRun) > conf.period then some (some lastRun) else none

/-- `InstanceDiscovery.discover`: `nova` answers a query, `now` and `stamp` are what the
`utcnow()` of the `elif` and the last `utcnow()` return. It returns the new state and
`self.instances.values()`. -/
def discover (conf : DiscoveryConf) (nova : Option Int → List Server) (now stamp : Int)
    (s : InstanceDiscovery) : InstanceDiscovery × List Server :=
  let s' := match query conf s now with
    | none => s
    | some since => ⟨some stamp, trackAll s.instances (nova since)⟩
  (s', s'.instances.map Prod.snd)

/-- `group_id`: the host when workload partitioning is on, else `None`. -/
def groupId (conf : DiscoveryConf) : Option String :=
  if conf.workloadPartitioning then some conf.host else none

theorem get?_trackInstance (instances : Instances) (srv : Server) (id : String) :
    (trackInstance instances srv).get? id =
      if srv.id = id then (if srv.terminal then none else some srv) else instances.get? id := by
  unfold trackInstance
  by_cases same : srv.id = id <;> split <;> simp_all

/-- The loop is a last-writer-wins merge: a server id takes the last record listed for it,
absent if that record is terminal, and keeps its old entry when it is not listed. -/
theorem get?_trackAll (instances : Instances) (listing : List Server) (id : String) :
    (trackAll instances listing).get? id =
      match listing.reverse.find? (fun srv => srv.id = id) with
      | some srv => if srv.terminal then none else some srv
      | none => instances.get? id := by
  induction listing using List.reverseRecOn with
  | nil => rfl
  | append_singleton listing srv ih =>
    rw [trackAll, List.foldl_append, List.foldl_cons, List.foldl_nil, get?_trackInstance,
      ← trackAll, ih, List.reverse_append, List.reverse_singleton, List.singleton_append,
      List.find?_cons]
    by_cases same : srv.id = id <;> simp [same]

theorem discover_of_query_none {conf : DiscoveryConf} {s : InstanceDiscovery} {now : Int}
    (none : query conf s now = none) (nova : Option Int → List Server) (stamp : Int) :
    (discover conf nova now stamp s).1 = s := by
  simp [discover, none]

theorem discover_of_query_some {conf : DiscoveryConf} {s : InstanceDiscovery} {now : Int}
    {since : Option Int} (made : query conf s now = some since) (nova : Option Int → List Server)
    (stamp : Int) : (discover conf nova now stamp s).1 = ⟨some stamp, trackAll s.instances (nova since)⟩ := by
  simp [discover, made]

/-! ### The throttle -/

/-- Within the period, no query: the seconds that `timedelta.seconds` counts are at most the
elapsed ones. -/
theorem query_eq_none_of_lt {conf : DiscoveryConf} {s : InstanceDiscovery} {t now : Int}
    (last : s.lastRun = some t) (after : t ≤ now) (within : now - t < conf.period * 1000000) :
    query conf s now = none := by
  simp only [query, last]
  rw [if_neg]
  unfold timedeltaSeconds
  omega

/-- `timedelta.seconds` drops the days: the throttle decides a call a day later as it decides
this one. -/
theorem query_add_day (conf : DiscoveryConf) (s : InstanceDiscovery) (now : Int) :
    query conf s (now + 86400 * 1000000) = query conf s now := by
  unfold query
  split
  · rfl
  · have same : timedeltaSeconds (now + 86400 * 1000000 - ‹Int›) = timedeltaSeconds (now - ‹Int›) := by
      unfold timedeltaSeconds
      omega
    rw [same]

/-- Calls a day and ten seconds, or 120.5 seconds, after `last_run`, with a period of 120
seconds: the elapsed time exceeds the period, yet neither call queries nova, and both leave
`self.instances` and `last_run` as they are. -/
theorem late_calls_skip_query (host : String) (partitioning : Bool) (instances : Instances)
    (nova : Option Int → List Server) (stamp : Int) :
    let conf : DiscoveryConf := ⟨host, 120, partitioning⟩
    let s : InstanceDiscovery := ⟨some 0, instances⟩
    (86410 * 1000000 - 0 > conf.period * 1000000 ∧ query conf s (86410 * 1000000) = none ∧
        (discover conf nova (86410 * 1000000) stamp s).1 = s) ∧
      (120500000 - 0 > conf.period * 1000000 ∧ query conf s 120500000 = none ∧
        (discover conf nova 120500000 stamp s).1 = s) := by
  intro conf s
  have day : query conf s (86410 * 1000000) = none := rfl
  have half : query conf s 120500000 = none := rfl
  exact ⟨⟨show (120 : Int) * 1000000 < 86410 * 1000000 - 0 by decide, day,
      discover_of_query_none day nova stamp⟩,
    ⟨show (120 : Int) * 1000000 < 120500000 - 0 by decide, half, discover_of_query_none half nova stamp⟩⟩

/-! ### Runs of `discover` -/

/-- The states that calls of `discover` reach from `__init__`, with the listings nova returned
to them, in order. Each call has its own nova answers and its own `utcnow()` values. -/
inductive Discovered (conf : DiscoveryConf) : InstanceDiscovery → List (List Server) → Prop
  | init : Discovered conf .init []
  | call {s : InstanceDiscovery} {listings : List (List Server)} (nova : Option Int → List Server)
      (now stamp : Int) :
      Discovered conf s listings →
        Discovered conf (discover conf nova now stamp s).1 (listings ++ ((query conf s now).map nova).toList)

/-- The record of server `id` that nova returned last across `listings`. -/
def lastRecord (listings : List (List Server)) (id : String) : Option Server :=
  listings.flatten.reverse.find? fun srv => srv.id = id

theorem lastRecord_append_singleton (listings : List (List Server)) (listing : List Server)
    (id : String) :
    lastRecord (listings ++ [listing]) id =
      (listing.reverse.find? fun srv => srv.id = id).or (lastRecord listings id) := by
  simp [lastRecord]

/-- `self.instances` is the last-writer-wins merge of every listing processed so far. -/
theorem get?_of_discovered {conf : DiscoveryConf} {s : InstanceDiscovery}
    {listings : List (List Server)} (reach : Discovered conf s listings) (id : String) :
    s.instances.get? id = (lastRecord listings id).filter fun srv => !srv.terminal := by
  induction reach with
  | init => rfl
  | @call s listings nova now stamp _ ih =>
    cases made : query conf s now with
    | none => rw [discover_of_query_none made, Option.map_none', Option.toList_none,
        List.append_nil, ih]
    | some since =>
      rw [discover_of_query_some made, Option.map_some', Option.toList_some,
        lastRecord_append_singleton]
      show (trackAll s.instances (nova since)).get? id = _
      rw [get?_trackAll]
      cases (nova since).reverse.find? fun srv => srv.id = id with
      | none => exact ih
      | some srv => by_cases terminal : srv.terminal <;> simp [terminal, Option.filter]

/-- Over every run of `discover` and every answers of nova, with ids repeated within and
across listings: `self.instances` maps an id to a record exactly when that record is the
last one nova returned for the id and it is neither deleted nor in error. -/
theorem tracked_last_record (conf : DiscoveryConf) {s : InstanceDiscovery}
    {listings : List (List Server)} (reach : Discovered conf s listings) (id : String) (srv : Server) :
    s.instances.get? id = some srv ↔ lastRecord listings id = some srv ∧ srv.terminal = false := by
  rw [get?_of_discovered reach, Option.filter_eq_some]
  simp

/-- Two calls, 121 seconds apart. The first listing has `i1` active, then in error, and `i2`
active; the second has `i2` deleted and `i1` active again. `i1` is tracked with its last record,
and `i2` is not tracked. -/
theorem flipping_servers_tracked :
    let conf : DiscoveryConf := ⟨"h", 120, false⟩
    let first : Option Int → List Server := fun _ =>
      [⟨"i1", some "active", "h", 0⟩, ⟨"i1", some "error", "h", 0⟩, ⟨"i2", some "active", "h", 0⟩]
    let second : Option Int → List Server := fun _ =>
      [⟨"i2", some "deleted", "h", 1⟩, ⟨"i1", some "active", "h", 1⟩]
    let s := (discover conf second 121000000 121000000 (discover conf first 0 0 .init).1).1
    s.instances.get? "i1" = some ⟨"i1", some "active", "h", 1⟩ ∧ ∀ srv, s.instances.get? "i2" ≠ some srv := by
  intro conf first second s
  have reach := Discovered.call second 121000000 121000000 (Discovered.call first 0 0 (@Discovered.init conf))
  refine ⟨(tracked_last_record conf reach "i1" _).mpr ⟨rfl, rfl⟩, fun srv tracked => ?_⟩
  obtain ⟨last, live⟩ := (tracked_last_record conf reach "i2" srv).mp tracked
  cases last.symm.trans (rfl : _ = some (⟨"i2", some "deleted", "h", 1⟩ : Server))
  exact absurd live (by decide)

/-! ### What `discover` returns -/

namespace Instances

/-- `self.instances` as `discover` keeps it: each server once, under its own id, and none
deleted or in error. -/
structure WellFormed (d : Instances) : Prop where
  nodup : (d.map Prod.fst).Nodup
  entries : ∀ kv ∈ d, kv.2.id = kv.1 ∧ kv.2.terminal = false

theorem wellFormed_nil : WellFormed [] := ⟨List.nodup_nil, fun _ member => absurd member (List.not_mem_nil _)⟩

theorem mem_setItem {d : Instances} {key : String} {v : Server} {kv : String × Server}
    (member : kv ∈ d.setItem key v) : kv = (key, v) ∨ kv ∈ d := by
  induction d with
  | nil => simpa [setItem] using member
  | cons kw d ih =>
    simp only [setItem] at member
    split at member
    · rcases List.mem_cons.mp member with rfl | later
      · exact .inl rfl
      · exact .inr (List.mem_cons_of_mem _ later)
    · rcases List.mem_cons.mp member with rfl | later
      · exact .inr (List.mem_cons_self _ _)
      · exact (ih later).imp_right (List.mem_cons_of_mem _)

/-- The ids after `self.instances[key] = v`: the same, or `key` appended. -/
theorem map_fst_setItem (d : Instances) (key : String) (v : Server) :
    (d.setItem key v).map Prod.fst =
      if key ∈ d.map Prod.fst then d.map Prod.fst else d.map Prod.fst ++ [key] := by
  induction d with
  | nil => simp [setItem]
  | cons kw d ih =>
    obtain ⟨k, w⟩ := kw
    by_cases same : k = key
    · simp [setItem, same]
    · simp only [setItem, same, if_false, List.map_cons, ih, List.mem_cons, Ne.symm same, false_or]
      split <;> rfl

theorem WellFormed.setItem {d : Instances} (wf : d.WellFormed) {srv : Server} (live : srv.terminal = false) :
    (d.setItem srv.id srv).WellFormed := by
  refine ⟨?_, fun kv member => ?_⟩
  · rw [map_fst_setItem]
    split
    · exact wf.nodup
    · next absent =>
      exact List.pairwise_append.mpr ⟨wf.nodup, List.pairwise_singleton _ _,
        fun a held b single same => absent (List.mem_singleton.mp single ▸ same ▸ held)⟩
  · rcases mem_setItem member with rfl | old
    · exact ⟨rfl, live⟩
    · exact wf.entries kv old

theorem WellFormed.pop {d : Instances} (wf : d.WellFormed) (key : String) : (d.pop key).WellFormed :=
  ⟨wf.nodup.sublist ((List.filter_sublist _).map Prod.fst),
    fun kv member => wf.entries kv (List.mem_of_mem_filter member)⟩

theorem WellFormed.trackInstance {d : Instances} (wf : d.WellFormed) (srv : Server) :
    (Compute.trackInstance d srv).WellFormed := by
  unfold Compute.trackInstance
  split
  · exact wf.pop _
  · exact wf.setItem (Bool.eq_false_iff.mpr ‹_›)

theorem WellFormed.trackAll {d : Instances} (wf : d.WellFormed) (listing : List Server) :
    (Compute.trackAll d listing).WellFormed := by
  induction listing generalizing d with
  | nil => exact wf
  | cons srv listing ih => exact ih (wf.trackInstance srv)

end Instances

/-- The run lemma: every call keeps `self.instances` well formed. -/
theorem Discovered.wellFormed {conf : DiscoveryConf} {s : InstanceDiscovery}
    {listings : List (List Server)} (reach : Discovered conf s listings) : s.instances.WellFormed := by
  induction reach with
  | init => exact Instances.wellFormed_nil
  | @call s listings nova now stamp _ ih =>
    cases made : query conf s now with
    | none => rw [discover_of_query_none made]; exact ih
    | some since => rw [discover_of_query_some made]; exact ih.trackAll _

/-- Whatever nova answers, with ids repeated within and across its listings, every call of
`discover` in a run returns each server at most once, and never one whose last record was
deleted or in error. -/
theorem discover_returns_live_once (conf : DiscoveryConf) {s : InstanceDiscovery}
    {listings : List (List Server)} (reach : Discovered conf s listings) (nova : Option Int → List Server)
    (now stamp : Int) :
    ((discover conf nova now stamp s).2.map Server.id).Nodup ∧
      ∀ srv ∈ (discover conf nova now stamp s).2, srv.terminal = false := by
  have wf := (reach.call nova now stamp).wellFormed
  have returned : (discover conf nova now stamp s).2 =
      (discover conf nova now stamp s).1.instances.map Prod.snd := rfl
  have ids : (discover conf nova now stamp s).1.instances.map (Server.id ∘ Prod.snd) =
      (discover conf nova now stamp s).1.instances.map Prod.fst :=
    List.map_congr_left fun kv member => (wf.entries kv member).1
  rw [returned, List.map_map, ids]
  refine ⟨wf.nodup, fun srv member => ?_⟩
  obtain ⟨kv, held, rfl⟩ := List.mem_map.mp member
  exact (wf.entries kv held).2

/-- The second call of the run above returns `i1` once, active. -/
theorem discover_returns_live_once_flipping :
    let conf : DiscoveryConf := ⟨"h", 120, false⟩
    let first : Option Int → List Server := fun _ =>
      [⟨"i1", some "active", "h", 0⟩, ⟨"i1", some "error", "h", 0⟩, ⟨"i2", some "active", "h", 0⟩]
    let second : Option Int → List Server := fun _ =>
      [⟨"i2", some "deleted", "h", 1⟩, ⟨"i1", some "active", "h", 1⟩, ⟨"i1", some "active", "h", 1⟩]
    let returned := (discover conf second 121000000 121000000 (discover conf first 0 0 .init).1).2
    returned = [⟨"i1", some "active", "h", 1⟩] ∧ (returned.map Server.id).Nodup ∧
      ∀ srv ∈ returned, srv.terminal = false := by
  intro conf first second returned
  exact ⟨rfl, discover_returns_live_once conf (Discovered.call first 0 0 .init) second _ _⟩

/-! ### Nova's inventory -/

/-- Nova's servers, at most one per id. -/
structure Inventory where
  servers : List Server
  nodup : (servers.map Server.id).Nodup

namespace Inventory

/-- Server `id`'s record. -/
def find? (inv : Inventory) (id : String) : Option Server := inv.servers.find? fun srv => srv.id = id

/-- Nova records a server: its record replaces the old one, if any. -/
def put (inv : Inventory) (srv : Server) : Inventory :=
  ⟨srv :: inv.servers.filter (fun old => old.id ≠ srv.id), by
    refine List.nodup_cons.mpr ⟨fun mem => ?_, (inv.nodup.sublist ((List.filter_sublist _).map _))⟩
    obtain ⟨old, kept, same⟩ := List.mem_map.mp mem
    simp [same] at kept⟩

/-- Nova drops the record of server `id`. -/
def purge (inv : Inventory) (id : String) : Inventory :=
  ⟨inv.servers.filter (fun old => old.id ≠ id), inv.nodup.sublist ((List.filter_sublist _).map _)⟩

/-- `instance_get_all_by_host(host)` (`since = none`) and
`instance_get_all_by_host(host, since)`: the servers on `host`, updated at or after
`since`. -/
def byHost (inv : Inventory) (host : String) (since : Option Int) : List Server :=
  inv.servers.filter fun srv => srv.host = host && since.all (· ≤ srv.updatedAt)

/-- What a full enumeration at this moment keeps of server `id`. -/
def expected (inv : Inventory) (host : String) (id : String) : Option Server :=
  (inv.find? id).filter fun srv => srv.host = host && !srv.terminal

theorem find?_put (inv : Inventory) (srv : Server) (id : String) :
    (inv.put srv).find? id = if srv.id = id then some srv else inv.find? id := by
  by_cases same : srv.id = id
  · simp [put, find?, same]
  · simp only [put, find?, List.find?_cons, same, decide_False, if_false, List.find?_filter]
    congr 1
    funext old
    by_cases h : old.id = id <;> simp [h, Ne.symm same]

theorem find?_purge (inv : Inventory) (id id' : String) :
    (inv.purge id).find? id' = if id = id' then none else inv.find? id' := by
  simp only [purge, find?, List.find?_filter]
  by_cases same : id = id'
  · subst id'
    rw [if_pos rfl]
    exact List.find?_eq_none.mpr fun _ _ => by simp
  · rw [if_neg same]
    congr 1
    funext old
    by_cases h : old.id = id' <;> simp [h, Ne.symm same]

/-- A server that is listed is the one nova holds, on the host, updated since `since`. -/
theorem find?_reverse_byHost (inv : Inventory) (host : String) (since : Option Int) (id : String) :
    (inv.byHost host since).reverse.find? (fun srv => srv.id = id) =
      (inv.find? id).filter fun srv => srv.host = host && since.all (· ≤ srv.updatedAt) := by
  obtain ⟨servers, nodup⟩ := inv
  simp only [byHost, find?]
  induction servers with
  | nil => rfl
  | cons srv rest ih =>
    obtain ⟨fresh, nodup⟩ := List.nodup_cons.mp nodup
    have absent : rest.find? (fun old => old.id = srv.id) = none :=
      List.find?_eq_none.mpr fun old mem same => fresh (List.mem_map.mpr ⟨old, mem, by simpa using same⟩)
    by_cases same : srv.id = id
    · subst same
      have gone : (rest.filter fun old => old.host = host && since.all (· ≤ old.updatedAt)).reverse.find?
          (fun old => old.id = srv.id) = none := by
        rw [ih nodup, absent]; rfl
      by_cases listed : srv.host = host && since.all (· ≤ srv.updatedAt)
      · simp [List.filter_cons, listed, List.find?_append, gone, Option.filter]
      · simp [List.filter_cons, listed, gone, Option.filter]
    · by_cases listed : srv.host = host && since.all (· ≤ srv.updatedAt) <;>
        simp [List.filter_cons, listed, List.find?_append, same, ih nodup]

end Inventory

/-! ### The agent in a changing cloud -/

/-- Nova, the time, and the agent's discovery: its state, and whether a call of
`discover` is between its query and its last `utcnow()`. -/
structure Cloud where
  clock : Int
  inventory : Inventory
  discovery : InstanceDiscovery
  pending : Bool

/-- A cloud whose agent has not called `discover` yet. -/
def Cloud.start (clock : Int) (inventory : Inventory) : Cloud :=
  ⟨clock, inventory, InstanceDiscovery.init, false⟩

/-- What can happen next: time passes; nova records a server (stamped with the time) or
drops one; the agent's `discover` queries nova and runs its loop, or ends with its last
`utcnow()`. -/
inductive Event where
  | tick (dt : Nat)
  | change (id host : String) (vmState : Option String)
  | purge (id : String)
  | query
  | stamp
  deriving DecidableEq, Repr

/-- One event; `none` if it cannot happen: a `query` while a call is pending, or a `stamp`
with none pending. A `query` that makes no nova call ends the call. -/
def Cloud.step (s : Cloud) (conf : DiscoveryConf) : Event → Option Cloud
  | .tick dt => some { s with clock := s.clock + dt }
  | .change id host vmState => some { s with inventory := s.inventory.put ⟨id, vmState, host, s.clock⟩ }
  | .purge id => some { s with inventory := s.inventory.purge id }
  | .query =>
    if s.pending then none else
    match query conf s.discovery s.clock with
    | none => some s
    | some since =>
      some { s with
        discovery := { s.discovery with
          instances := trackAll s.discovery.instances (s.inventory.byHost conf.host since) },
        pending := true }
  | .stamp =>
    if s.pending then some { s with discovery := { s.discovery with lastRun := some s.clock }, pending := false }
    else none

/-- A call of `discover` at time `s.clock` with nothing in between its two steps: a query
that makes no nova call is the whole call, and otherwise the stamp follows. -/
theorem step_query_stamp (conf : DiscoveryConf) (s : Cloud) (idle : s.pending = false) :
    let called := (discover conf (s.inventory.byHost conf.host) s.clock s.clock s.discovery).1
    (query conf s.discovery s.clock = none → s.step conf .query = some { s with discovery := called }) ∧
      (query conf s.discovery s.clock ≠ none →
        (s.step conf .query).bind (·.step conf .stamp) = some { s with discovery := called }) := by
  obtain ⟨clock, inventory, discovery, pending⟩ := s
  subst idle
  intro called
  constructor
  · intro none
    simp [Cloud.step, none, called, discover]
  · intro some
    obtain ⟨since, made⟩ := Option.ne_none_iff_exists'.mp some
    simp [Cloud.step, made, called, discover]

/-- The nova query of a call that makes one: the full one before any `last_run`, and the
incremental one since `last_run` after. -/
theorem query_some {conf : DiscoveryConf} {d : InstanceDiscovery} {now : Int} {since : Option Int}
    (made : query conf d now = some since) :
    (d.lastRun = none ∧ since = none) ∨ ∃ t, d.lastRun = some t ∧ since = some t := by
  unfold query at made
  split at made
  · exact .inl ⟨‹_›, (Option.some.inj made).symm⟩
  · split at made
    · exact .inr ⟨_, ‹_›, (Option.some.inj made).symm⟩
    · cases made

/-! ### Runs -/

/-- The clouds that a run of events accepted by `allowed` reaches from `start`. -/
inductive Reachable (conf : DiscoveryConf) (allowed : Cloud → Event → Prop) (start : Cloud) :
    Cloud → Prop
  | init : Reachable conf allowed start start
  | step {s s' : Cloud} {e : Event} :
      Reachable conf allowed start s → allowed s e → s.step conf e = some s' →
        Reachable conf allowed start s'

/-- The events of a list in order, each of them one that `ok` accepts. -/
def runWhile (conf : DiscoveryConf) (ok : Cloud → Event → Bool) : Cloud → List Event → Option Cloud
  | s, [] => some s
  | s, e :: rest => if ok s e then (s.step conf e).bind (runWhile conf ok · rest) else none

/-- A run that `ok` accepts, ending where `p` holds. -/
theorem reach_of_runWhile (conf : DiscoveryConf) {allowed : Cloud → Event → Prop}
    (ok : Cloud → Event → Bool) (sound : ∀ s e, ok s e = true → allowed s e) (start : Cloud)
    (events : List Event) {p : Cloud → Bool} (ends : (runWhile conf ok start events).map p = some true) :
    ∃ s, Reachable conf allowed start s ∧ p s = true := by
  suffices run : ∀ events s s', Reachable conf allowed start s → runWhile conf ok s events = some s' →
      Reachable conf allowed start s' by
    cases ran : runWhile conf ok start events with
    | none => simp [ran] at ends
    | some s => exact ⟨s, run events start s .init ran, by simpa [ran] using ends⟩
  intro events
  induction events with
  | nil => intro s s' reach ran; exact Option.some.inj ran ▸ reach
  | cons e rest ih =>
    intro s s' reach ran
    simp only [runWhile] at ran
    split at ran
    · cases h : s.step conf e with
      | none => simp [h] at ran
      | some s₁ =>
        rw [h, Option.some_bind] at ran
        exact ih s₁ s' (reach.step (sound s e ‹_›) h) ran
    · cases ran

/-! ### Calm runs -/

/-- An event that keeps the agent's host calm: no server on the host moves off it or is
dropped, and nothing in nova changes while a call of `discover` is between its query and
its last `utcnow()`. -/
def calm (conf : DiscoveryConf) (s : Cloud) : Event → Bool
  | .change id host _ =>
    !s.pending && (s.inventory.find? id).all fun srv => srv.host ≠ conf.host || host = conf.host
  | .purge id => !s.pending && (s.inventory.find? id).all fun srv => srv.host ≠ conf.host
  | _ => true

/-- What a calm run keeps: every tracked server is on the host in nova; between calls, the
tracked servers agree with a full enumeration on every server not updated since
`last_run`, and on every server during a call, after its enumeration. -/
structure Tracks (conf : DiscoveryConf) (s : Cloud) : Prop where
  onHost : ∀ id srv, s.discovery.instances.get? id = some srv →
    ∃ srv', s.inventory.find? id = some srv' ∧ srv'.host = conf.host
  never : s.discovery.lastRun = none → s.pending = false → s.discovery.instances = []
  seen : ∀ t, s.discovery.lastRun = some t → s.pending = false → ∀ id,
    (∀ srv, s.inventory.find? id = some srv → srv.updatedAt < t) →
      s.discovery.instances.get? id = s.inventory.expected conf.host id
  fresh : s.pending = true → ∀ id, s.discovery.instances.get? id = s.inventory.expected conf.host id
  stamped : ∀ t, s.discovery.lastRun = some t → t ≤ s.clock

section Calm

variable {conf : DiscoveryConf}

/-- A tracked set that agrees with a full enumeration holds only servers on the host. -/
theorem onHost_of_agrees {instances : Instances} {inv : Inventory}
    (agrees : ∀ id, instances.get? id = inv.expected conf.host id) (id : String) (srv : Server)
    (tracked : instances.get? id = some srv) :
    ∃ srv', inv.find? id = some srv' ∧ srv'.host = conf.host := by
  rw [agrees, Inventory.expected, Option.filter_eq_some] at tracked
  obtain ⟨found, kept⟩ := tracked
  have kept : srv.host = conf.host ∧ srv.terminal = false := by simpa using kept
  exact ⟨srv, found, kept.1⟩

/-- A server that nova does not hold on the host is not tracked. -/
theorem get?_eq_none_of_off {s : Cloud} (inv : Tracks conf s) {id : String}
    (off : ∀ srv, s.inventory.find? id = some srv → srv.host ≠ conf.host) :
    s.discovery.instances.get? id = none := by
  cases tracked : s.discovery.instances.get? id with
  | none => rfl
  | some srv =>
    obtain ⟨srv', found, host⟩ := inv.onHost id srv tracked
    exact (off srv' found host).elim

/-- The enumeration of a call brings the tracked servers in full agreement. -/
theorem Tracks.enumerate {s : Cloud} (inv : Tracks conf s) (idle : s.pending = false)
    {since : Option Int} (made : query conf s.discovery s.clock = some since) (id : String) :
    (trackAll s.discovery.instances (s.inventory.byHost conf.host since)).get? id =
      s.inventory.expected conf.host id := by
  rw [get?_trackAll, Inventory.find?_reverse_byHost, Inventory.expected]
  cases found : s.inventory.find? id with
  | none => exact get?_eq_none_of_off inv fun srv h => by rw [found] at h; cases h
  | some srv =>
    by_cases listed : (srv.host = conf.host && since.all (· ≤ srv.updatedAt)) = true
    · simp only [Bool.and_eq_true, decide_eq_true_eq] at listed
      simp only [Option.filter_some, listed, if_true, decide_True, Bool.true_and]
      cases srv.terminal <;> rfl
    · simp only [Option.filter_some, listed, Bool.false_eq_true, if_false]
      by_cases host : srv.host = conf.host
      · -- listed but for `since`: not updated since `last_run`
        rcases query_some made with ⟨-, rfl⟩ | ⟨t, last, rfl⟩
        · simp [host] at listed
        · have older : srv.updatedAt < t := by
            have : ¬t ≤ srv.updatedAt := by simpa [host] using listed
            omega
          rw [inv.seen t last idle id fun srv' h => by rw [found] at h; cases h; exact older,
            Inventory.expected, found, Option.filter_some]
      · rw [get?_eq_none_of_off inv fun srv' h => by rw [found] at h; cases h; exact host]
        simp [host]

/-- Time passing keeps the invariant. -/
theorem Tracks.tick {s : Cloud} (inv : Tracks conf s) (dt : Nat) :
    Tracks conf { s with clock := s.clock + dt } :=
  ⟨inv.onHost, inv.never, inv.seen, inv.fresh, fun t last => by
    have := inv.stamped t last
    dsimp only
    omega⟩

/-- Nova records a server between two calls, without moving it off the host. -/
theorem Tracks.change {s : Cloud} (inv : Tracks conf s) (idle : s.pending = false)
    {id host : String} {vmState : Option String}
    (keeps : ∀ srv, s.inventory.find? id = some srv → srv.host = conf.host → host = conf.host) :
    Tracks conf { s with inventory := s.inventory.put ⟨id, vmState, host, s.clock⟩ } := by
  refine ⟨fun id' srv tracked => ?_, inv.never, fun t last _ id' older => ?_,
    fun p => absurd (idle.symm.trans p) Bool.false_ne_true, inv.stamped⟩
  · obtain ⟨srv', found, onHost⟩ := inv.onHost id' srv tracked
    simp only [Inventory.find?_put]
    split
    · subst id'
      exact ⟨_, rfl, keeps srv' found onHost⟩
    · exact ⟨srv', found, onHost⟩
  · by_cases same : id = id'
    · -- the record is newer than `last_run`
      subst id'
      have newer := older ⟨id, vmState, host, s.clock⟩ (by simp [Inventory.find?_put])
      have stamped := inv.stamped t last
      dsimp only at newer stamped
      omega
    · have old := inv.seen t last idle id' fun srv h => older srv (by simp [Inventory.find?_put, same, h])
      simp only [old, Inventory.expected, Inventory.find?_put, same, if_false]

/-- Nova drops a server that is not on the host, between two calls. -/
theorem Tracks.purge {s : Cloud} (inv : Tracks conf s) (idle : s.pending = false) {id : String}
    (off : ∀ srv, s.inventory.find? id = some srv → srv.host ≠ conf.host) :
    Tracks conf { s with inventory := s.inventory.purge id } := by
  refine ⟨fun id' srv tracked => ?_, inv.never, fun t last _ id' older => ?_,
    fun p => absurd (idle.symm.trans p) Bool.false_ne_true, inv.stamped⟩
  · obtain ⟨srv', found, onHost⟩ := inv.onHost id' srv tracked
    by_cases same : id = id'
    · subst id'
      exact (off srv' found onHost).elim
    · exact ⟨srv', by simp [Inventory.find?_purge, same, found], onHost⟩
  · by_cases same : id = id'
    · subst id'
      simp only [Inventory.expected, Inventory.find?_purge, if_true, Option.filter_none]
      exact get?_eq_none_of_off inv off
    · simp only [Inventory.expected, Inventory.find?_purge, same, if_false]
      exact inv.seen t last idle id' fun srv h => older srv (by simp [Inventory.find?_purge, same, h])

/-- The query and loop of a call that enumerates. -/
theorem Tracks.enumerated {s : Cloud} (inv : Tracks conf s) (idle : s.pending = false)
    {since : Option Int} (made : query conf s.discovery s.clock = some since) :
    Tracks conf { s with
      discovery := { s.discovery with
        instances := trackAll s.discovery.instances (s.inventory.byHost conf.host since) },
      pending := true } :=
  have agrees := inv.enumerate idle made
  ⟨onHost_of_agrees agrees, nofun, nofun, fun _ => agrees, inv.stamped⟩

/-- The last `utcnow()` of a call: full agreement as of the new `last_run`. -/
theorem Tracks.stamp {s : Cloud} (inv : Tracks conf s) (pending : s.pending = true) :
    Tracks conf { s with discovery := { s.discovery with lastRun := some s.clock }, pending := false } :=
  ⟨inv.onHost, nofun, fun _ _ _ id _ => inv.fresh pending id, nofun, fun _ last => by
    cases last
    exact Int.le_refl _⟩

theorem Tracks.step {s s' : Cloud} {e : Event} (inv : Tracks conf s) (ok : calm conf s e = true)
    (h : s.step conf e = some s') : Tracks conf s' := by
  cases e with
  | tick dt =>
    cases h
    exact inv.tick dt
  | change id host vmState =>
    cases h
    simp only [calm, Bool.and_eq_true, Bool.not_eq_true'] at ok
    exact inv.change ok.1 fun srv found onHost => by simpa [found, onHost] using ok.2
  | purge id =>
    cases h
    simp only [calm, Bool.and_eq_true, Bool.not_eq_true'] at ok
    exact inv.purge ok.1 fun srv found => by simpa [found] using ok.2
  | query =>
    simp only [Cloud.step] at h
    split at h
    · cases h
    · split at h
      · cases h
        exact inv
      · cases h
        exact inv.enumerated (by simpa using ‹¬s.pending = true›) ‹_›
  | stamp =>
    simp only [Cloud.step] at h
    split at h
    · cases h
      exact inv.stamp ‹_›
    · cases h

theorem tracks_start (clock : Int) (inventory : Inventory) : Tracks conf (.start clock inventory) :=
  ⟨(fun _ _ h => by cases h), fun _ _ => rfl, nofun, nofun, nofun⟩

end Calm

/-- After every call of `discover` that enumerates, in a run where no server leaves the
agent's host and nothing in nova changes while a call is between its query and its last
`utcnow()`, `self.instances` holds exactly the servers that a full enumeration at that
moment keeps: those on the host that are neither deleted nor in error, with their current
records. -/
theorem discover_tracks_host (conf : DiscoveryConf) (clock : Int) (inventory : Inventory)
    {s s' : Cloud} (reach : Reachable conf (fun s e => calm conf s e = true) (.start clock inventory) s)
    (stamp : s.step conf .stamp = some s') :
    ∀ id, s'.discovery.instances.get? id = s'.inventory.expected conf.host id := by
  have inv : Tracks conf s := by
    clear stamp
    induction reach with
    | init => exact tracks_start clock inventory
    | step _ ok h inv => exact inv.step ok h
  simp only [Cloud.step] at stamp
  split at stamp
  · cases stamp
    exact inv.fresh ‹_›
  · cases stamp

/-! ### Two runs on one host -/

/-- The agent's host `h`, polled every 120 seconds. -/
def hostConf : DiscoveryConf := ⟨"h", 120, false⟩

/-- Nova holds one active server, `i1`, on `h`. -/
def oneServer : Inventory := ⟨[⟨"i1", some "active", "h", 0⟩], by decide⟩

/-- `i1` migrates to `h2` between two calls. The incremental query lists only the servers
on `h`, so it never reports `i1` again, and `self.instances` keeps it after the second
enumeration. -/
theorem migrated_instance_kept :
    ∃ s s', Reachable hostConf (fun _ _ => True) (.start 0 oneServer) s ∧
      s.step hostConf .stamp = some s' ∧
      s'.discovery.instances.get? "i1" ≠ s'.inventory.expected hostConf.host "i1" := by
  obtain ⟨s, reach, ends⟩ := reach_of_runWhile hostConf (fun _ _ => true) (fun _ _ _ => trivial)
    (.start 0 oneServer)
    [.query, .stamp, .tick 10, .change "i1" "h2" (some "active"), .tick 200000000, .query]
    (p := fun s => match s.step hostConf .stamp with
      | some s' => s'.discovery.instances.get? "i1" != s'.inventory.expected hostConf.host "i1"
      | none => false) (by decide)
  revert ends
  cases stamped : s.step hostConf .stamp with
  | none => simp
  | some s' => exact fun differ => ⟨s, s', reach, stamped, by simpa using differ⟩

/-- A calm run: `i2` starts on `h`, and `i1` is deleted. After the second enumeration the
tracked servers are those on `h` that are not terminal. -/
theorem calm_run_tracks_host :
    ∃ s s', Reachable hostConf (fun s e => calm hostConf s e = true) (.start 0 oneServer) s ∧
      s.step hostConf .stamp = some s' ∧
      ∀ id, s'.discovery.instances.get? id = s'.inventory.expected hostConf.host id := by
  obtain ⟨s, reach, ends⟩ := reach_of_runWhile hostConf (calm hostConf) (fun _ _ ok => ok)
    (.start 0 oneServer)
    [.query, .stamp, .tick 10, .change "i2" "h" (some "active"), .change "i1" "h" (some "deleted"),
      .tick 200000000, .query]
    (p := fun s => (s.step hostConf .stamp).isSome) (by decide)
  obtain ⟨s', stamped⟩ := Option.isSome_iff_exists.mp ends
  exact ⟨s, s', reach, stamped, discover_tracks_host hostConf 0 oneServer reach stamped⟩

end Ceilometer.Compute
