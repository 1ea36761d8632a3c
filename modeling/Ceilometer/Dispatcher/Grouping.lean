import Mathlib.Data.List.Sort

/-!
# Sorting and grouping

`record_metering_data` sorts a batch with Python's stable `list.sort` and splits it
with `itertools.groupby`, first by resource id and then by metric name. This module
models both. A stable sort is determined by its input's per-key sublists
(`eq_sortBy_of_sorted`), which justifies modelling Python's sort by insertion sort,
and after a sort by key `groupby` yields each key once, in increasing order, with
all of that key's elements in their input order (`groupby_eq_filter`).
-/

namespace Ceilometer.Dispatcher

variable {α κ : Type}

/-- `itertools.groupby(data, key)`: the maximal runs of consecutive elements with
equal keys, each with its key. -/
def groupby [DecidableEq κ] (key : α → κ) : List α → List (κ × List α)
  | [] => []
  | a :: l =>
    match groupby key l with
    | (k, g) :: rest => if key a = k then (k, a :: g) :: rest else (key a, [a]) :: (k, g) :: rest
    | [] => [(key a, [a])]

/-- `l.sort(key=...)` with the key order given as a boolean comparison: Python's
sort is stable, and so is insertion sort. -/
def sortBy (le : α → α → Bool) (l : List α) : List α :=
  l.insertionSort fun a b => le a b = true

/-! ### `groupby` on any list -/

section Groupby

variable [DecidableEq κ] (key : α → κ)

theorem groupby_cons_of_eq {a : α} {l : List α} {k : κ} {g : List α} {rest : List (κ × List α)}
    (split : groupby key l = (k, g) :: rest) (same : key a = k) :
    groupby key (a :: l) = (k, a :: g) :: rest := by
  simp [groupby, split, same]

theorem groupby_cons_of_ne {a : α} {l : List α} {k : κ} {g : List α} {rest : List (κ × List α)}
    (split : groupby key l = (k, g) :: rest) (differ : key a ≠ k) :
    groupby key (a :: l) = (key a, [a]) :: (k, g) :: rest := by
  simp [groupby, split, differ]

/-- The groups, concatenated, give back the list. -/
theorem groupby_flatten (l : List α) : ((groupby key l).map Prod.snd).flatten = l := by
  induction l with
  | nil => rfl
  | cons a l ih =>
    cases split : groupby key l with
    | nil => simp [groupby, split] at ih ⊢; exact ih
    | cons g rest =>
      obtain ⟨k, g⟩ := g
      rw [split] at ih
      by_cases same : key a = k
      · rw [groupby_cons_of_eq key split same]; simp [← ih]
      · rw [groupby_cons_of_ne key split same]; simp [← ih]

/-- Every group is non-empty and made of elements with the group's key. -/
theorem groupby_group (l : List α) :
    ∀ g ∈ groupby key l, g.2 ≠ [] ∧ ∀ a ∈ g.2, key a = g.1 := by
  induction l with
  | nil => simp [groupby]
  | cons a l ih =>
    cases split : groupby key l with
    | nil => simp [groupby, split]
    | cons g rest =>
      obtain ⟨k, g⟩ := g
      rw [split] at ih
      by_cases same : key a = k
      · rw [groupby_cons_of_eq key split same]
        intro h member
        rcases List.mem_cons.mp member with rfl | member
        · have keys := (ih (k, g) (List.mem_cons_self _ _)).2
          simp only [ne_eq, reduceCtorEq, not_false_eq_true, List.mem_cons, forall_eq_or_imp,
            true_and]
          exact ⟨same, keys⟩
        · exact ih h (List.mem_cons_of_mem _ member)
      · rw [groupby_cons_of_ne key split same]
        intro h member
        rcases List.mem_cons.mp member with rfl | member
        · simp
        · exact ih h member

theorem mem_of_mem_groupby {l : List α} {g : κ × List α} (member : g ∈ groupby key l) {a : α}
    (ha : a ∈ g.2) : a ∈ l := by
  rw [← groupby_flatten key l, List.mem_flatten]
  exact ⟨g.2, List.mem_map_of_mem _ member, ha⟩

/-- Every element lies in a group of its key. -/
theorem exists_groupby_of_mem {l : List α} {a : α} (member : a ∈ l) :
    ∃ g ∈ groupby key l, g.1 = key a ∧ a ∈ g.2 := by
  rw [← groupby_flatten key l, List.mem_flatten] at member
  obtain ⟨_, hg, ha⟩ := member
  obtain ⟨g, member, rfl⟩ := List.mem_map.mp hg
  exact ⟨g, member, ((groupby_group key l g member).2 a ha).symm, ha⟩

theorem mem_groupby_keys (l : List α) (x : κ) :
    x ∈ (groupby key l).map Prod.fst ↔ ∃ a ∈ l, key a = x := by
  simp only [List.mem_map]
  constructor
  · rintro ⟨g, member, rfl⟩
    obtain ⟨nonempty, keys⟩ := groupby_group key l g member
    obtain ⟨a, ha⟩ := List.exists_mem_of_ne_nil _ nonempty
    exact ⟨a, mem_of_mem_groupby key member ha, keys a ha⟩
  · rintro ⟨a, member, rfl⟩
    obtain ⟨g, hg, hkey, -⟩ := exists_groupby_of_mem key member
    exact ⟨g, hg, hkey⟩

end Groupby

/-! ### `groupby` on a list sorted by its key -/

section SortedGroupby

variable [DecidableEq κ] [LinearOrder κ] (key : α → κ)

/-- After a sort by key, the keys of the groups strictly increase, so no key has two groups. -/
theorem groupby_keys_sorted {l : List α} (sorted : l.Sorted fun a b => key a ≤ key b) :
    ((groupby key l).map Prod.fst).Sorted (· < ·) := by
  induction l with
  | nil => simp [groupby]
  | cons a l ih =>
    obtain ⟨below, sorted⟩ := List.sorted_cons.mp sorted
    have ih := ih sorted
    cases split : groupby key l with
    | nil => simp [groupby, split]
    | cons g rest =>
      obtain ⟨k, g⟩ := g
      rw [split] at ih
      by_cases same : key a = k
      · rwa [groupby_cons_of_eq key split same]
      · rw [groupby_cons_of_ne key split same]
        have first : key a < k := by
          obtain ⟨b, hb, rfl⟩ := (mem_groupby_keys key l k).mp (by simp [split])
          exact lt_of_le_of_ne (below b hb) same
        simp only [List.map_cons, List.sorted_cons, List.mem_cons, forall_eq_or_imp] at ih ⊢
        exact ⟨⟨first, fun k' member => first.trans (ih.1 k' member)⟩, ih⟩

/-- After a sort by key, the groups before a group have smaller keys. -/
theorem groupby_lt_of_eq_append {l : List α} (sorted : l.Sorted fun a b => key a ≤ key b)
    {pre rest : List (κ × List α)} {g : κ × List α} (split : groupby key l = pre ++ g :: rest) :
    ∀ h ∈ pre, h.1 < g.1 := by
  have keys := groupby_keys_sorted key sorted
  rw [split, List.map_append, List.Sorted, List.pairwise_append] at keys
  exact fun h member => keys.2.2 _ (List.mem_map_of_mem _ member) _ (List.mem_cons_self _ _)

/-- After a sort by key, the group of a key holds exactly the elements with that key,
in their order. -/
theorem groupby_eq_filter {l : List α} (sorted : l.Sorted fun a b => key a ≤ key b) :
    ∀ g ∈ groupby key l, g.2 = l.filter fun a => key a = g.1 := by
  induction l with
  | nil => simp [groupby]
  | cons a l ih =>
    have keys := groupby_keys_sorted key sorted
    obtain ⟨below, sorted⟩ := List.sorted_cons.mp sorted
    have ih := ih sorted
    cases split : groupby key l with
    | nil =>
      have empty : l = [] := by simpa [split] using (groupby_flatten key l).symm
      subst empty
      simp [groupby]
    | cons g rest =>
      obtain ⟨k, g⟩ := g
      rw [split] at ih
      by_cases same : key a = k
      · rw [groupby_cons_of_eq key split same] at keys ⊢
        rw [List.map_cons, List.sorted_cons] at keys
        intro h member
        rcases List.mem_cons.mp member with rfl | member
        · have first := ih (k, g) (List.mem_cons_self _ _)
          simp only at first
          simp [same, first]
        · have other : key a ≠ h.1 := same ▸ ne_of_lt (keys.1 h.1 (List.mem_map_of_mem _ member))
          simp [other, ih h (List.mem_cons_of_mem _ member)]
      · rw [groupby_cons_of_ne key split same] at keys ⊢
        rw [List.map_cons, List.sorted_cons] at keys
        intro h member
        rcases List.mem_cons.mp member with rfl | member
        · have none : l.filter (fun b => key b = key a) = [] :=
            List.filter_eq_nil_iff.mpr fun b hb equal =>
              (keys.1 _ (split ▸ (mem_groupby_keys key l _).mpr ⟨b, hb, rfl⟩)).ne'
                (of_decide_eq_true equal)
          simp [none]
        · have other : key a ≠ h.1 := ne_of_lt (keys.1 h.1 (List.mem_map_of_mem _ member))
          simp [other, ih h member]

end SortedGroupby

/-! ### Stable sorting -/

section StableSort

variable [LinearOrder κ] (key : α → κ) (le : α → α → Bool)
  (hle : ∀ a b, le a b = true ↔ key a ≤ key b)

include hle in
theorem sorted_sortBy (l : List α) : (sortBy le l).Sorted fun a b => key a ≤ key b := by
  haveI : IsTotal α fun a b => le a b = true :=
    ⟨fun a b => by simpa only [hle] using le_total (key a) (key b)⟩
  haveI : IsTrans α fun a b => le a b = true :=
    ⟨fun a b c hab hbc => (hle a c).mpr (((hle a b).mp hab).trans ((hle b c).mp hbc))⟩
  exact (List.sorted_insertionSort _ l).imp fun h => (hle _ _).mp h

theorem perm_sortBy (l : List α) : (sortBy le l).Perm l := List.perm_insertionSort _ l

theorem key_head_le {a b : α} {l : List α} (sorted : (a :: l).Sorted fun a b => key a ≤ key b)
    (member : b ∈ a :: l) : key a ≤ key b := by
  rcases List.mem_cons.mp member with rfl | member
  · exact le_rfl
  · exact List.rel_of_sorted_cons sorted b member

variable [DecidableEq κ]

include hle in
/-- Stability: sorting keeps the elements of each key in their input order. -/
theorem filter_sortBy (l : List α) (x : κ) :
    (sortBy le l).filter (fun a => key a = x) = l.filter fun a => key a = x := by
  symm
  apply List.Sublist.eq_of_length
  · have chain : (l.filter fun a => key a = x).Pairwise fun a b => le a b = true := by
      refine List.pairwise_of_forall_mem_list fun a ha b hb => ?_
      simp only [List.mem_filter, decide_eq_true_eq] at ha hb
      exact (hle _ _).mpr (ha.2.trans hb.2.symm).le
    have inside := List.sublist_insertionSort chain (List.filter_sublist l)
    simpa using inside.filter fun a => key a = x
  · exact ((perm_sortBy le l).filter _).length_eq.symm

/-- Two lists sorted by key with the same elements for every key are equal. -/
theorem eq_of_sorted_of_filter_eq {l₁ l₂ : List α}
    (sorted₁ : l₁.Sorted fun a b => key a ≤ key b) (sorted₂ : l₂.Sorted fun a b => key a ≤ key b)
    (same : ∀ x, l₁.filter (fun a => key a = x) = l₂.filter fun a => key a = x) : l₁ = l₂ := by
  induction l₁ generalizing l₂ with
  | nil =>
    cases l₂ with
    | nil => rfl
    | cons b l₂ => simpa using same (key b)
  | cons a l₁ ih =>
    cases l₂ with
    | nil => simpa using same (key a)
    | cons b l₂ =>
      have ab : key a ≤ key b := key_head_le key sorted₁ <| List.mem_of_mem_filter
        (show b ∈ (a :: l₁).filter fun c => key c = key b by rw [same]; simp)
      have ba : key b ≤ key a := key_head_le key sorted₂ <| List.mem_of_mem_filter
        (show a ∈ (b :: l₂).filter fun c => key c = key a by rw [← same]; simp)
      have heads := same (key a)
      simp only [List.filter_cons, le_antisymm ab ba, decide_True, ite_true, List.cons.injEq]
        at heads
      obtain ⟨rfl, -⟩ := heads
      congr 1
      refine ih (List.sorted_cons.mp sorted₁).2 (List.sorted_cons.mp sorted₂).2 fun x => ?_
      have := same x
      by_cases h : key a = x <;> simpa [List.filter_cons, h] using this

include hle in
/-- Every stable sort by key gives the list `sortBy` gives: so `sortBy` models Python's
`list.sort` whatever algorithm that uses. -/
theorem eq_sortBy_of_sorted {l l' : List α} (sorted : l'.Sorted fun a b => key a ≤ key b)
    (stable : ∀ x, l'.filter (fun a => key a = x) = l.filter fun a => key a = x) :
    l' = sortBy le l :=
  eq_of_sorted_of_filter_eq key sorted (sorted_sortBy key le hle l)
    fun x => (stable x).trans (filter_sortBy key le hle l x).symm

include hle in
/-- Lists with the same elements for every key, in the same order, sort to the same list. -/
theorem sortBy_eq_of_filter_eq {l₁ l₂ : List α}
    (same : ∀ x, l₁.filter (fun a => key a = x) = l₂.filter fun a => key a = x) :
    sortBy le l₁ = sortBy le l₂ :=
  eq_sortBy_of_sorted key le hle (sorted_sortBy key le hle l₁)
    fun x => (filter_sortBy key le hle l₁ x).trans (same x)

end StableSort

end Ceilometer.Dispatcher
