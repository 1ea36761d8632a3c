import Ceilometer.Dispatcher.Gnocchi
import Mathlib.Data.String.Basic
import Mathlib.Data.Prod.Lex
import Mathlib.Data.List.Dedup

/-!
# The batch of `record_metering_data`

`record_metering_data` drops Gnocchi's own activity from a batch, sorts it by
`(resource_id, counter_name)`, and processes it grouped by resource and, inside a
resource, by metric. What the grouping yields (`pairGroups_eq`): one group per
distinct pair, in increasing order, holding exactly that pair's samples in their
input order. What the filter does (`dropGnocchiActivity_cons`): look the project id
up once, then drop the samples it marks (`dropGnocchiActivity_of_known`), or raise
`re.error` when marking one of them runs a pattern that does not compile
(`dropGnocchiActivity_raises`).

## Main results

- `record_same_per_pair_order`: two batches that list the samples of every pair in
  the same order make the same run, whatever the backend and the cache.
- `record_depends_on_pair_order`: two samples of one pair, swapped, change the calls.
-/

namespace Ceilometer.Dispatcher

/-! ### The order of the sort -/

theorem lex_chars_cons_iff {c d : Char} {cs ds : List Char} :
    List.Lex (· < ·) (c :: cs) (d :: ds) ↔ c < d ∨ c = d ∧ List.Lex (· < ·) cs ds := by
  constructor
  · rintro (_ | h | h)
    · exact .inr ⟨rfl, ‹_›⟩
    · exact .inl h
  · rintro (h | ⟨rfl, h⟩)
    · exact .rel h
    · exact .cons h

theorem charsLt_iff : ∀ l₁ l₂ : List Char, charsLt l₁ l₂ = true ↔ List.Lex (· < ·) l₁ l₂
  | [], [] => by simp [charsLt, List.Lex.not_nil_right]
  | [], _ :: _ => by simp [charsLt, List.Lex.nil]
  | _ :: _, [] => by simp [charsLt, List.Lex.not_nil_right]
  | c :: cs, d :: ds => by
    have lt : c.toNat < d.toNat ↔ c < d := Iff.rfl
    rw [lex_chars_cons_iff, ← charsLt_iff cs ds, ← lt]
    simp [charsLt]

theorem strLt_iff (a b : String) : strLt a b = true ↔ a < b := by
  rw [strLt, charsLt_iff, String.lt_iff_toList_lt]
  rfl

/-- The pair a batch is sorted and grouped by. -/
def pairOf (s : Sample) : String × String := (s.resourceId, s.counterName)

/-- Python's `<=` on `(resource_id, counter_name)` tuples. -/
def pairLe (p q : String × String) : Bool :=
  strLt p.1 q.1 || (p.1 = q.1 && !strLt q.2 p.2)

theorem pairLe_iff (p q : String × String) : pairLe p q = true ↔ toLex p ≤ toLex q := by
  have notLt : ∀ a b : String, (!strLt b a) = true ↔ a ≤ b := fun a b => by
    rw [Bool.not_eq_true', ← Bool.not_eq_true, strLt_iff, not_lt]
  rw [Prod.Lex.le_iff]
  simp only [pairLe, Bool.or_eq_true, Bool.and_eq_true, decide_eq_true_eq, strLt_iff, notLt]

theorem sampleKeyLe_iff (a b : Sample) :
    sampleKeyLe a b = true ↔ toLex (pairOf a) ≤ toLex (pairOf b) :=
  pairLe_iff (pairOf a) (pairOf b)

theorem sorted_batch (data : List Sample) :
    (sortBy sampleKeyLe data).Sorted fun a b => toLex (pairOf a) ≤ toLex (pairOf b) :=
  sorted_sortBy _ sampleKeyLe sampleKeyLe_iff data

/-- Sorting is stable on the samples of one pair. -/
theorem filter_pair_sortBy (data : List Sample) (p : String × String) :
    (sortBy sampleKeyLe data).filter (fun s => pairOf s = p) = data.filter fun s => pairOf s = p := by
  have stable := filter_sortBy (fun s => toLex (pairOf s)) sampleKeyLe sampleKeyLe_iff data (toLex p)
  simpa only [toLex_inj] using stable

/-! ### The groups -/

/-- The groups `record_metering_data` hands `_process_resource`, flattened: each
metric group with its resource id. -/
def pairGroups (data : List Sample) : List ((String × String) × List Sample) :=
  (groupby Sample.resourceId (sortBy sampleKeyLe data)).flatMap fun g =>
    (groupby Sample.counterName g.2).map fun h => ((g.1, h.1), h.2)

section Groups

variable (data : List Sample)

theorem sorted_by_resource :
    (sortBy sampleKeyLe data).Sorted fun a b => a.resourceId ≤ b.resourceId :=
  (sorted_batch data).imp fun {a b} h => by
    rcases (Prod.Lex.le_iff _ _).mp h with h | h
    · exact h.le
    · exact h.1.le

theorem resource_group_eq {g : String × List Sample}
    (member : g ∈ groupby Sample.resourceId (sortBy sampleKeyLe data)) :
    g.2 = (sortBy sampleKeyLe data).filter fun s => s.resourceId = g.1 :=
  groupby_eq_filter Sample.resourceId (sorted_by_resource data) g member

theorem sorted_by_metric {g : String × List Sample}
    (member : g ∈ groupby Sample.resourceId (sortBy sampleKeyLe data)) :
    g.2.Sorted fun a b => a.counterName ≤ b.counterName := by
  have sorted := resource_group_eq data member ▸ (sorted_batch data).filter _
  refine sorted.imp_of_mem fun {a b} ha hb h => ?_
  have same : a.resourceId = b.resourceId := by
    rw [resource_group_eq data member] at ha hb
    simp only [List.mem_filter, decide_eq_true_eq] at ha hb
    rw [ha.2, hb.2]
  rcases (Prod.Lex.le_iff _ _).mp h with h | h
  · exact absurd same (ne_of_lt h)
  · exact h.2

/-- A metric group holds exactly its pair's samples, in input order. -/
theorem metric_group_eq {g h : String × List Sample}
    (outer : g ∈ groupby Sample.resourceId (sortBy sampleKeyLe data))
    (inner : h ∈ groupby Sample.counterName g.2) :
    h.2 = data.filter fun s => pairOf s = (g.1, h.1) := by
  rw [groupby_eq_filter Sample.counterName (sorted_by_metric data outer) h inner,
    resource_group_eq data outer, List.filter_filter, ← filter_pair_sortBy]
  congr 1
  funext s
  simp only [pairOf, Prod.mk.injEq, Bool.decide_and, Bool.and_comm]

theorem mem_pairGroups {g : (String × String) × List Sample} (member : g ∈ pairGroups data) :
    ∃ outer ∈ groupby Sample.resourceId (sortBy sampleKeyLe data),
      ∃ inner ∈ groupby Sample.counterName outer.2, g = ((outer.1, inner.1), inner.2) := by
  simp only [pairGroups, List.mem_flatMap, List.mem_map] at member
  obtain ⟨outer, hOuter, inner, hInner, rfl⟩ := member
  exact ⟨outer, hOuter, inner, hInner, rfl⟩

/-- Every group holds exactly its pair's samples, in input order, and at least one. -/
theorem pairGroups_group {g : (String × String) × List Sample} (member : g ∈ pairGroups data) :
    g.2 = (data.filter fun s => pairOf s = g.1) ∧ g.2 ≠ [] := by
  obtain ⟨outer, hOuter, inner, hInner, rfl⟩ := mem_pairGroups data member
  exact ⟨metric_group_eq data hOuter hInner, (groupby_group _ _ inner hInner).1⟩

theorem mem_pairGroups_keys (p : String × String) :
    p ∈ (pairGroups data).map Prod.fst ↔ ∃ s ∈ data, pairOf s = p := by
  constructor
  · simp only [List.mem_map]
    rintro ⟨g, member, rfl⟩
    obtain ⟨samples, nonempty⟩ := pairGroups_group data member
    obtain ⟨s, hs⟩ := List.exists_mem_of_ne_nil _ nonempty
    rw [samples, List.mem_filter, decide_eq_true_eq] at hs
    exact ⟨s, hs⟩
  · rintro ⟨s, member, rfl⟩
    have sorted : s ∈ sortBy sampleKeyLe data := (perm_sortBy _ data).mem_iff.mpr member
    rw [← groupby_flatten Sample.resourceId (sortBy sampleKeyLe data), List.mem_flatten] at sorted
    obtain ⟨_, hg, inOuter⟩ := sorted
    obtain ⟨outer, hOuter, rfl⟩ := List.mem_map.mp hg
    have inInner := inOuter
    rw [← groupby_flatten Sample.counterName outer.2, List.mem_flatten] at inInner
    obtain ⟨_, hh, inInner⟩ := inInner
    obtain ⟨inner, hInner, rfl⟩ := List.mem_map.mp hh
    simp only [pairGroups, List.map_flatMap, List.mem_flatMap, List.map_map, List.mem_map,
      Function.comp]
    refine ⟨outer, hOuter, inner, hInner, ?_⟩
    simp only [pairOf, (groupby_group _ _ outer hOuter).2 s inOuter,
      (groupby_group _ _ inner hInner).2 s inInner]

/-- Every sample lies in the metric group of its pair, inside the resource group of its
resource. -/
theorem exists_groups_of_mem {s : Sample} (member : s ∈ data) :
    ∃ x ∈ groupby Sample.resourceId (sortBy sampleKeyLe data), x.1 = s.resourceId ∧
      ∃ g ∈ groupby Sample.counterName x.2, g.1 = s.counterName ∧
        g.2 = data.filter fun t => pairOf t = pairOf s := by
  obtain ⟨x, hx, xKey, inX⟩ :=
    exists_groupby_of_mem Sample.resourceId ((perm_sortBy _ data).mem_iff.mpr member)
  obtain ⟨g, hg, gKey, -⟩ := exists_groupby_of_mem Sample.counterName inX
  refine ⟨x, hx, xKey, g, hg, gKey, ?_⟩
  rw [metric_group_eq data hx hg, xKey, gKey]
  rfl

/-- The pairs of the groups strictly increase. -/
theorem pairGroups_keys_sorted : ((pairGroups data).map fun g => toLex g.1).Sorted (· < ·) := by
  have outerSorted := groupby_keys_sorted Sample.resourceId (sorted_by_resource data)
  have innerSorted := fun g (member : g ∈ groupby Sample.resourceId (sortBy sampleKeyLe data)) =>
    groupby_keys_sorted Sample.counterName (sorted_by_metric data member)
  unfold pairGroups
  generalize groupby Sample.resourceId (sortBy sampleKeyLe data) = outer at outerSorted innerSorted
  induction outer with
  | nil => simp
  | cons g rest ih =>
    simp only [List.map_cons, List.sorted_cons, List.mem_map] at outerSorted
    simp only [List.flatMap_cons, List.map_append, List.map_map, List.Sorted, List.pairwise_append]
    refine ⟨?_, ih outerSorted.2 fun g' member => innerSorted g' (List.mem_cons_of_mem _ member),
      fun a ha b hb => ?_⟩
    · have inner := List.pairwise_map.mp (innerSorted g (List.mem_cons_self _ _))
      exact List.pairwise_map.mpr (inner.imp fun {a b} h =>
        (Prod.Lex.lt_iff (g.1, a.1) (g.1, b.1)).mpr (.inr ⟨rfl, h⟩))
    · simp only [List.mem_map, Function.comp, List.mem_flatMap] at ha hb
      obtain ⟨h, -, rfl⟩ := ha
      obtain ⟨_, ⟨g', hg', h', -, rfl⟩, rfl⟩ := hb
      exact (Prod.Lex.lt_iff _ _).mpr (.inl (outerSorted.1 _ ⟨g', hg', rfl⟩))

/-- The groups are the distinct pairs of the batch, in increasing order, each with
its samples in input order. -/
theorem pairGroups_eq :
    pairGroups data = (sortBy pairLe (data.map pairOf).dedup).map fun p =>
      (p, data.filter fun s => pairOf s = p) := by
  have keys : (pairGroups data).map Prod.fst = sortBy pairLe (data.map pairOf).dedup := by
    apply List.map_injective_iff.mpr toLex.injective
    have sorted₁ := pairGroups_keys_sorted data
    have sorted₂ : ((sortBy pairLe (data.map pairOf).dedup).map toLex).Sorted (· ≤ ·) := by
      exact List.pairwise_map.mpr (sorted_sortBy toLex pairLe pairLe_iff _)
    rw [List.map_map]
    refine List.eq_of_perm_of_sorted ?_ sorted₁.le_of_lt sorted₂
    refine (List.perm_ext_iff_of_nodup sorted₁.nodup ?_).mpr fun x => ?_
    · exact ((perm_sortBy pairLe _).nodup_iff.mpr (List.nodup_dedup _)).map toLex.injective
    · simp only [List.mem_map, Function.comp, (perm_sortBy pairLe _).mem_iff, List.mem_dedup]
      constructor
      · rintro ⟨g, member, rfl⟩
        obtain ⟨s, hs, same⟩ := (mem_pairGroups_keys data g.1).mp (List.mem_map_of_mem _ member)
        exact ⟨g.1, ⟨s, hs, same⟩, rfl⟩
      · rintro ⟨p, ⟨s, hs, rfl⟩, rfl⟩
        obtain ⟨g, member, same⟩ := List.mem_map.mp ((mem_pairGroups_keys data _).mpr ⟨s, hs, rfl⟩)
        exact ⟨g, member, by rw [same]⟩
  rw [← keys, List.map_map]
  conv_lhs => rw [← List.map_id (pairGroups data)]
  refine List.map_congr_left fun g member => ?_
  simp only [Function.comp, id]
  rw [← (pairGroups_group data member).1]

end Groups

/-- Batches that list the samples of every pair in the same order sort alike. -/
theorem sortBy_eq_of_pairs {l₁ l₂ : List Sample}
    (same : ∀ p, l₁.filter (fun s => pairOf s = p) = l₂.filter fun s => pairOf s = p) :
    sortBy sampleKeyLe l₁ = sortBy sampleKeyLe l₂ := by
  refine sortBy_eq_of_filter_eq (fun s => toLex (pairOf s)) sampleKeyLe sampleKeyLe_iff fun x => ?_
  rw [← toLex_ofLex x]
  simpa only [toLex_inj] using same (ofLex x)

theorem filter_pairs_of_pairs {l₁ l₂ : List Sample}
    (same : ∀ p, l₁.filter (fun s => pairOf s = p) = l₂.filter fun s => pairOf s = p)
    (q : Sample → Bool) (p : String × String) :
    (l₁.filter q).filter (fun s => pairOf s = p) = (l₂.filter q).filter fun s => pairOf s = p := by
  have swap : ∀ l : List Sample, (l.filter q).filter (fun s => pairOf s = p) =
      (l.filter fun s => pairOf s = p).filter q := fun l => by
    simp only [List.filter_filter, Bool.and_comm]
  rw [swap, swap, same]

/-! ### The activity filter -/

namespace GnocchiDispatcher

variable {σ τ : Type} (d : GnocchiDispatcher σ τ)

/-- `_is_gnocchi_activity` once the project id is known to be `pid`: it raises where
`_is_swift_account_sample` does. -/
def activityAt (pid : String) (s : Sample) : Except PyExc Bool :=
  if d.filterServiceActivity then
    if s.projectId = .str pid then .ok true
    else if s.resourceId = pid then d.isSwiftAccountSample s else .ok false
  else .ok false

/-- What `_is_gnocchi_activity` returns once the project id is known to be `pid`, when
every pattern compiles. -/
def isGnocchiActivityOf (pid : String) (s : Sample) : Bool :=
  d.filterServiceActivity &&
    (s.projectId = .str pid || (s.resourceId = pid && d.swiftAccountMatch s))

theorem activityAt_of_compiles (ok : d.Compiles) (pid : String) (s : Sample) :
    d.activityAt pid s = .ok (d.isGnocchiActivityOf pid s) := by
  unfold activityAt isGnocchiActivityOf
  by_cases filtering : d.filterServiceActivity <;>
    by_cases project : s.projectId = .str pid <;> by_cases resource : s.resourceId = pid <;>
    simp [filtering, project, resource, d.isSwiftAccountSample_of_compiles ok]

theorem activityAt_raises {pid : String} {s : Sample} {e : PyExc}
    (raised : d.activityAt pid s = .error e) : e = .reError := by
  unfold activityAt at raised
  split at raised
  · split at raised
    · cases raised
    · split at raised
      · exact d.isSwiftAccountSample_raises raised
      · cases raised
  · cases raised

theorem gnocchiProjectId_of_known {w : World σ τ} {pid : String}
    (known : w.gnocchiProjectId = some pid) : d.gnocchiProjectId w = .ok pid w := by
  simp [gnocchiProjectId, known]

/-- A lookup that succeeds is remembered, and makes no call. -/
theorem gnocchiProjectId_ok {w w' : World σ τ} {pid : String}
    (found : d.gnocchiProjectId w = .ok pid w') :
    w'.gnocchiProjectId = some pid ∧ w'.calls = w.calls := by
  unfold gnocchiProjectId at found
  split at found
  · cases found; exact ⟨‹_›, rfl⟩
  · split at found <;> cases found
    exact ⟨rfl, rfl⟩

/-- The lookup leaves the backend as it was, or as keystone's `tenants.find` left it. -/
theorem gnocchiProjectId_remote {w w' : World σ τ} {pid : String}
    (found : d.gnocchiProjectId w = .ok pid w') :
    w'.remote = w.remote ∨ w'.remote = (d.tenantsFind d.filterProject w.remote).2 := by
  unfold gnocchiProjectId at found
  split at found
  · cases found; exact .inl rfl
  · split at found <;> cases found
    exact .inr (by rw [‹d.tenantsFind d.filterProject w.remote = _›])

/-- `_is_gnocchi_activity` looks the project id up, then decides with it. -/
theorem isGnocchiActivity_eq (filtering : d.filterServiceActivity = true) (s : Sample) (w : World σ τ) :
    d.isGnocchiActivity s w = match d.gnocchiProjectId w with
      | .ok pid w' => liftExcept (d.activityAt pid s) w'
      | .error e w' => .error e w' := by
  simp only [isGnocchiActivity, filtering, if_true, bind_apply]
  cases found : d.gnocchiProjectId w with
  | ok pid w' =>
    by_cases same : s.projectId = .str pid
    · simp [same, activityAt, filtering, liftExcept]
    · simp only [same, if_false, bind_apply,
        gnocchiProjectId_of_known d ((gnocchiProjectId_ok d found).1), activityAt, filtering, if_true]
      split <;> rfl
  | error e w' => rfl

theorem dropGnocchiActivity_of_off (off : d.filterServiceActivity = false) (w : World σ τ) :
    ∀ data, d.dropGnocchiActivity data w = .ok data w
  | [] => rfl
  | s :: data => by
    simp only [dropGnocchiActivity, bind_apply, isGnocchiActivity, off, Bool.false_eq_true,
      if_false, pure_apply, dropGnocchiActivity_of_off off w data]

section Known

variable {w : World σ τ} {pid : String} (known : w.gnocchiProjectId = some pid)
include known

theorem isGnocchiActivity_of_known (s : Sample) :
    d.isGnocchiActivity s w = liftExcept (d.activityAt pid s) w := by
  cases filtering : d.filterServiceActivity
  · simp [isGnocchiActivity, activityAt, filtering, liftExcept]
  · rw [isGnocchiActivity_eq d filtering, gnocchiProjectId_of_known d known]

/-- With the project id known, the filter keeps the samples that are not activity, when
no sample makes `_is_gnocchi_activity` raise. -/
theorem dropGnocchiActivity_of_known {q : Sample → Bool} :
    ∀ {data : List Sample}, (∀ s ∈ data, d.activityAt pid s = .ok (q s)) →
      d.dropGnocchiActivity data w = .ok (data.filter fun s => !q s) w
  | [], _ => rfl
  | s :: data, ok => by
    simp only [dropGnocchiActivity, bind_apply, isGnocchiActivity_of_known d known,
      ok s (List.mem_cons_self _ _), liftExcept, pure_apply,
      dropGnocchiActivity_of_known fun t h => ok t (List.mem_cons_of_mem _ h)]
    cases hq : q s <;> simp [List.filter_cons, hq]

/-- With the project id known, one sample that makes `_is_gnocchi_activity` raise makes
the filter raise `re.error`. -/
theorem dropGnocchiActivity_raises :
    ∀ {data : List Sample}, (∃ s ∈ data, ∃ e, d.activityAt pid s = .error e) →
      d.dropGnocchiActivity data w = .error .reError w
  | [], ⟨_, h, _⟩ => absurd h (List.not_mem_nil _)
  | s :: data, ⟨t, ht, raises⟩ => by
    simp only [dropGnocchiActivity, bind_apply, isGnocchiActivity_of_known d known]
    cases hs : d.activityAt pid s with
    | error e => simp [liftExcept, d.activityAt_raises hs]
    | ok b =>
      have later : ∃ t ∈ data, ∃ e, d.activityAt pid t = .error e := by
        rcases List.mem_cons.mp ht with rfl | ht
        · obtain ⟨e, he⟩ := raises
          rw [hs] at he
          cases he
        · exact ⟨t, ht, raises⟩
      simp only [liftExcept, pure_apply, dropGnocchiActivity_raises later]

/-- With the project id known, the filter leaves the world alone. -/
theorem dropGnocchiActivity_world :
    ∀ {data kept : List Sample} {w₁ : World σ τ}, d.dropGnocchiActivity data w = .ok kept w₁ → w₁ = w
  | [], _, _, run => by cases run; rfl
  | s :: data, kept, w₁, run => by
    simp only [dropGnocchiActivity, bind_apply, isGnocchiActivity_of_known d known] at run
    cases hs : d.activityAt pid s with
    | error e => simp [hs, liftExcept] at run
    | ok b =>
      simp only [hs, liftExcept, pure_apply] at run
      split at run
      · cases run
        exact dropGnocchiActivity_world ‹_›
      · cases run

end Known

/-- The filter looks the project id up at the first sample; from then on it is known. -/
theorem dropGnocchiActivity_cons (filtering : d.filterServiceActivity = true) (s : Sample)
    (data : List Sample) (w : World σ τ) :
    d.dropGnocchiActivity (s :: data) w = match d.gnocchiProjectId w with
      | .ok _ w' => d.dropGnocchiActivity (s :: data) w'
      | .error e w' => .error e w' := by
  cases found : d.gnocchiProjectId w with
  | ok pid w' =>
    have known := (gnocchiProjectId_ok d found).1
    simp only [dropGnocchiActivity, bind_apply]
    rw [isGnocchiActivity_eq d filtering s w, found, isGnocchiActivity_of_known d known]
  | error e w' => simp [dropGnocchiActivity, bind_apply, isGnocchiActivity_eq d filtering, found]

/-- When the project id resolves (or nothing is filtered) and every pattern compiles,
the filter returns the batch without Gnocchi's activity and makes no call. -/
theorem dropGnocchiActivity_resolves (ok : d.Compiles) {w : World σ τ} {pid : String}
    (resolves : d.filterServiceActivity = true → ∃ w₁, d.gnocchiProjectId w = .ok pid w₁)
    (data : List Sample) :
    ∃ w₁, d.dropGnocchiActivity data w = .ok (data.filter fun s => !d.isGnocchiActivityOf pid s) w₁ ∧
      w₁.calls = w.calls := by
  cases filtering : d.filterServiceActivity
  · refine ⟨w, ?_, rfl⟩
    simp [dropGnocchiActivity_of_off d filtering, isGnocchiActivityOf, filtering]
  · obtain ⟨w₁, found⟩ := resolves filtering
    cases data with
    | nil => exact ⟨w, rfl, rfl⟩
    | cons s data =>
      refine ⟨w₁, ?_, (gnocchiProjectId_ok d found).2⟩
      rw [dropGnocchiActivity_cons d filtering, found]
      exact d.dropGnocchiActivity_of_known (gnocchiProjectId_ok d found).1
        fun t _ => d.activityAt_of_compiles ok pid t

/-- The filter leaves the backend as it was, or as keystone's `tenants.find` left it. -/
theorem dropGnocchiActivity_remote {data kept : List Sample} {w w₁ : World σ τ}
    (run : d.dropGnocchiActivity data w = .ok kept w₁) :
    w₁.remote = w.remote ∨ w₁.remote = (d.tenantsFind d.filterProject w.remote).2 := by
  cases filtering : d.filterServiceActivity
  · rw [dropGnocchiActivity_of_off d filtering] at run
    cases run
    exact .inl rfl
  · cases data with
    | nil => cases run; exact .inl rfl
    | cons s data =>
      rw [dropGnocchiActivity_cons d filtering] at run
      split at run
      · rename_i pid w' found
        rw [d.dropGnocchiActivity_world (gnocchiProjectId_ok d found).1 run]
        exact d.gnocchiProjectId_remote found
      · cases run

/-- The filter only drops samples. -/
theorem dropGnocchiActivity_sub :
    ∀ {data kept : List Sample} {w w' : World σ τ},
      d.dropGnocchiActivity data w = .ok kept w' → ∀ s ∈ kept, s ∈ data
  | [], _, _, _, run => by cases run; exact fun _ h => h
  | s :: data, kept, w, w', run => by
    simp only [dropGnocchiActivity, bind_apply] at run
    split at run
    · split at run
      · cases run
        intro t h
        split at h
        · exact List.mem_cons_of_mem _ (dropGnocchiActivity_sub ‹_› t h)
        · rcases List.mem_cons.mp h with rfl | h
          · exact List.mem_cons_self _ _
          · exact List.mem_cons_of_mem _ (dropGnocchiActivity_sub ‹_› t h)
      · cases run
    · cases run

/-! ### Order independence -/

theorem mem_of_same_pairs {l₁ l₂ : List Sample}
    (same : ∀ p, l₁.filter (fun s => pairOf s = p) = l₂.filter fun s => pairOf s = p)
    {s : Sample} (member : s ∈ l₁) : s ∈ l₂ := by
  have kept : s ∈ l₁.filter fun t => pairOf t = pairOf s := List.mem_filter.mpr ⟨member, by simp⟩
  rw [same] at kept
  exact (List.mem_filter.mp kept).1

/-- With the project id known, two batches that list the samples of every pair in the
same order are filtered to batches that sort alike, or both make the filter raise. -/
theorem dropGnocchiActivity_same_pairs {w : World σ τ} {pid : String}
    (known : w.gnocchiProjectId = some pid) {l₁ l₂ : List Sample}
    (same : ∀ p, l₁.filter (fun s => pairOf s = p) = l₂.filter fun s => pairOf s = p) :
    (∃ k₁ k₂, d.dropGnocchiActivity l₁ w = .ok k₁ w ∧ d.dropGnocchiActivity l₂ w = .ok k₂ w ∧
        sortBy sampleKeyLe k₁ = sortBy sampleKeyLe k₂) ∨
      (d.dropGnocchiActivity l₁ w = .error .reError w ∧ d.dropGnocchiActivity l₂ w = .error .reError w) := by
  have back : ∀ p, l₂.filter (fun s => pairOf s = p) = l₁.filter fun s => pairOf s = p :=
    fun p => (same p).symm
  by_cases returns : ∀ s ∈ l₁, ∃ b, d.activityAt pid s = .ok b
  · let q : Sample → Bool := fun s => match d.activityAt pid s with
      | .ok b => b
      | .error _ => false
    have ok : ∀ s ∈ l₁, d.activityAt pid s = .ok (q s) := fun s member => by
      obtain ⟨b, hb⟩ := returns s member
      simp only [q, hb]
    exact .inl ⟨_, _, d.dropGnocchiActivity_of_known known ok,
      d.dropGnocchiActivity_of_known known fun s member => ok s (mem_of_same_pairs back member),
      sortBy_eq_of_pairs (filter_pairs_of_pairs same _)⟩
  · push_neg at returns
    obtain ⟨s, member, raises⟩ := returns
    have raised : ∃ e, d.activityAt pid s = .error e := by
      cases h : d.activityAt pid s with
      | ok b => exact absurd h (raises b)
      | error e => exact ⟨e, rfl⟩
    exact .inr ⟨d.dropGnocchiActivity_raises known ⟨s, member, raised⟩,
      d.dropGnocchiActivity_raises known ⟨s, mem_of_same_pairs same member, raised⟩⟩

/-- Two batches that list the samples of every `(resource_id, counter_name)` pair in the
same order make the same run: the same calls, the same outcome and the same final
state, for every backend, cache and initial state. -/
theorem record_same_per_pair_order {l₁ l₂ : List Sample}
    (same : ∀ p, l₁.filter (fun s => pairOf s = p) = l₂.filter fun s => pairOf s = p)
    (w : World σ τ) : (d.recordMeteringData l₁).run w = (d.recordMeteringData l₂).run w := by
  show (d.dropGnocchiActivity l₁ >>= _) w = (d.dropGnocchiActivity l₂ >>= _) w
  rw [bind_apply, bind_apply]
  cases filtering : d.filterServiceActivity
  · simp only [dropGnocchiActivity_of_off d filtering, sortBy_eq_of_pairs same]
  · cases l₁ with
    | nil =>
      cases l₂ with
      | nil => rfl
      | cons t l₂ => simpa using same (pairOf t)
    | cons s l₁ =>
      cases l₂ with
      | nil => simpa using same (pairOf s)
      | cons t l₂ =>
        rw [dropGnocchiActivity_cons d filtering, dropGnocchiActivity_cons d filtering]
        cases found : d.gnocchiProjectId w with
        | error e w' => rfl
        | ok pid w' =>
          rcases d.dropGnocchiActivity_same_pairs (gnocchiProjectId_ok d found).1 same with
            ⟨k₁, k₂, run₁, run₂, sorted⟩ | ⟨run₁, run₂⟩
          · simp only [run₁, run₂, sorted]
          · simp only [run₁, run₂]

/-- Two samples of different resources, in either order, make the same run. -/
theorem swapped_resources_same_run :
    let rd : ResourcesDefinition := ⟨"instance", ["cpu"], [], none, false, none⟩
    let d : GnocchiDispatcher Unit Unit := ⟨false, "service", [rd], fun _ s => (.ok (), s),
      fun _ s => (.error .unexpectedError, s), none, id, fun _ => 0⟩
    let a : Sample := ⟨"r1", "cpu", .none, .none, .int 1, .int 10, []⟩
    let c : Sample := ⟨"r2", "cpu", .none, .none, .int 1, .int 30, []⟩
    let w : World Unit Unit := ⟨(), (), none, [], []⟩
    (∀ p, [a, c].filter (fun s => pairOf s = p) = [c, a].filter fun s => pairOf s = p) ∧
      (d.recordMeteringData [a, c]).run w = (d.recordMeteringData [c, a]).run w := by
  intro rd d a c w
  have same : ∀ p, [a, c].filter (fun s => pairOf s = p) = [c, a].filter fun s => pairOf s = p := by
    intro p
    by_cases ha : pairOf a = p
    · subst ha; decide
    · by_cases hc : pairOf c = p
      · subst hc; decide
      · simp [ha, hc]
  exact ⟨same, record_same_per_pair_order d same w⟩

/-- Swapping two samples of one pair swaps their measures in the `post_measure` call. -/
theorem record_depends_on_pair_order :
    let rd : ResourcesDefinition := ⟨"instance", ["cpu"], [], none, false, none⟩
    let d : GnocchiDispatcher Unit Unit := ⟨false, "service", [rd], fun _ s => (.ok (), s),
      fun _ s => (.error .unexpectedError, s), none, id, fun _ => 0⟩
    let a : Sample := ⟨"r1", "cpu", .none, .none, .int 1, .int 10, []⟩
    let b : Sample := ⟨"r1", "cpu", .none, .none, .int 2, .int 20, []⟩
    let w : World Unit Unit := ⟨(), (), none, [], []⟩
    [a, b].Perm [b, a] ∧
      (final ((d.recordMeteringData [a, b]).run w)).calls ≠
        (final ((d.recordMeteringData [b, a]).run w)).calls := by
  intro rd d a b w
  exact ⟨List.Perm.swap b a [], by decide⟩

end GnocchiDispatcher

end Ceilometer.Dispatcher
