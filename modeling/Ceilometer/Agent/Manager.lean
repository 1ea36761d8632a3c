import Mathlib.Data.List.Basic

/-!
# The keystone client of the polling agent

`AgentManager` of `agent/manager.py` loads its keystone client lazily, once per
polling cycle: `interval_task` forgets the client and the last failure, and the
`keystone` property calls `keystone_client.get_client()` only when it remembers
neither. A run is any sequence of resets and accesses; `get_client` answers its
`n`-th call with an arbitrary client or `ClientException`.

## Main result

`keystone_once_per_cycle`: within each cycle `get_client` is called at most once,
by the cycle's first access, and every access of the cycle returns that call's
client or raises that call's exception.
-/

namespace Ceilometer.Agent

/-- A keystone client object, by identity. -/
structure Client where
  id : Nat
  deriving DecidableEq, Repr

/-- A `keystoneclient.exceptions.ClientException` object, by identity. -/
structure ClientException where
  id : Nat
  deriving DecidableEq, Repr

/-- What an access of `keystone` raises: the remembered exception, or the
`TypeError` of `raise None`. -/
inductive Raised where
  | client (e : ClientException)
  | typeError
  deriving DecidableEq, Repr

/-- The attributes of `AgentManager` the `keystone` property uses: `_keystone` and
`_keystone_last_exception`. -/
structure AgentManager where
  loadedKeystone : Option Client
  keystoneLastException : Option ClientException
  deriving DecidableEq, Repr

namespace AgentManager

/-- The state `__init__` leaves. -/
def init : AgentManager := ⟨none, none⟩

/-- `interval_task`: forget the client and the failure before polling. -/
def intervalTask (m : AgentManager) : AgentManager :=
  { m with loadedKeystone := none, keystoneLastException := none }

/-- The guard of the lazy loading: neither a client nor a failure is remembered. -/
def needsClient (m : AgentManager) : Bool :=
  m.loadedKeystone.isNone && m.keystoneLastException.isNone

/-- The lazy loading at the top of `keystone`, given what `get_client()` does when called. -/
def acquire (getClient : Except ClientException Client) (m : AgentManager) : AgentManager :=
  if m.needsClient then
    match getClient with
    | .ok c => { loadedKeystone := some c, keystoneLastException := none }
    | .error e => { loadedKeystone := none, keystoneLastException := some e }
  else m

/-- The `keystone` property: the outcome of the access and the new state. -/
def keystone (getClient : Except ClientException Client) (m : AgentManager) :
    Except Raised Client × AgentManager :=
  let m := m.acquire getClient
  match m.loadedKeystone with
  | some c => (.ok c, m)
  | none =>
    match m.keystoneLastException with
    | some e => (.error (.client e), m)
    | none => (.error .typeError, m)

/-- What an access returns when the state already remembers an outcome. -/
def remembered (m : AgentManager) : Option (Except Raised Client) :=
  match m.loadedKeystone, m.keystoneLastException with
  | some c, _ => some (.ok c)
  | none, some e => some (.error (.client e))
  | none, none => none

/-- The outcome of `get_client()` as an access reports it. -/
def reported : Except ClientException Client → Except Raised Client
  | .ok c => .ok c
  | .error e => .error (.client e)

@[simp] theorem intervalTask_remembered (m : AgentManager) : m.intervalTask.remembered = none :=
  rfl

@[simp] theorem init_remembered : init.remembered = none := rfl

theorem needsClient_iff (m : AgentManager) : m.needsClient = true ↔ m.remembered = none := by
  rcases m with ⟨_ | c, _ | e⟩ <;> simp [needsClient, remembered]

/-- An access in a state that remembers an outcome reports it and changes nothing. -/
theorem keystone_of_remembered {m : AgentManager} {o : Except Raised Client}
    (getClient : Except ClientException Client) (known : m.remembered = some o) :
    m.keystone getClient = (o, m) := by
  rcases m with ⟨_ | c, _ | e⟩ <;> simp_all [keystone, acquire, needsClient, remembered]

/-- An access in a state that remembers nothing reports `get_client()`'s outcome and
remembers it. -/
theorem keystone_of_needsClient {m : AgentManager} (getClient : Except ClientException Client)
    (fresh : m.remembered = none) :
    (m.keystone getClient).1 = reported getClient ∧
      (m.keystone getClient).2.remembered = some (reported getClient) := by
  rcases m with ⟨_ | c, _ | e⟩ <;> cases getClient <;>
    simp_all [keystone, acquire, needsClient, remembered, reported]

end AgentManager

/-! ### Runs -/

/-- A step of a run: a polling cycle starts, or a plugin reads `keystone`. -/
inductive Event where
  | intervalTask
  | keystone
  deriving DecidableEq, Repr

/-- One access of a run: its cycle, the index of the `get_client` call it made, if
any, and its outcome. -/
structure Access where
  cycle : Nat
  call : Option Nat
  outcome : Except Raised Client

open AgentManager in
/-- The accesses of a run from state `m` in cycle `cycle`, after `calls` calls of
`get_client`, whose `n`-th call gives `getClient n`. -/
def run (getClient : Nat → Except ClientException Client) :
    List Event → AgentManager → Nat → Nat → List Access
  | [], _, _, _ => []
  | .intervalTask :: events, m, cycle, calls => run getClient events m.intervalTask (cycle + 1) calls
  | .keystone :: events, m, cycle, calls =>
    let (outcome, m') := m.keystone (getClient calls)
    if m.needsClient then
      ⟨cycle, some calls, outcome⟩ :: run getClient events m' cycle (calls + 1)
    else
      ⟨cycle, none, outcome⟩ :: run getClient events m' cycle calls

/-- The accesses of a cycle obey the memoisation law: none is made when the state
already knows the outcome `o`; otherwise the first calls `get_client`, the others do
not, and all report the first one's outcome. -/
def CycleLaw (getClient : Nat → Except ClientException Client) :
    Option (Except Raised Client) → List Access → Prop
  | some o, accesses => ∀ a ∈ accesses, a.outcome = o ∧ a.call = none
  | none, [] => True
  | none, a :: rest => ∃ n, a.call = some n ∧ a.outcome = AgentManager.reported (getClient n) ∧
      ∀ b ∈ rest, b.outcome = a.outcome ∧ b.call = none

/-- The accesses of cycle `c` in a log. -/
def cycleAccesses (log : List Access) (c : Nat) : List Access := log.filter fun a => a.cycle = c

theorem cycleAccesses_cons_of_eq {a : Access} {c : Nat} (log : List Access) (same : a.cycle = c) :
    cycleAccesses (a :: log) c = a :: cycleAccesses log c := by
  simp [cycleAccesses, same]

theorem cycleAccesses_cons_of_ne {a : Access} {c : Nat} (log : List Access) (other : a.cycle ≠ c) :
    cycleAccesses (a :: log) c = cycleAccesses log c := by
  simp [cycleAccesses, other]

section
variable (getClient : Nat → Except ClientException Client)

@[simp] theorem cycleLaw_nil (o : Option (Except Raised Client)) : CycleLaw getClient o [] := by
  cases o <;> simp [CycleLaw]

/-- A `keystone` access in a state that remembers an outcome: no call, and the same state. -/
theorem run_keystone_of_remembered {m : AgentManager} {o : Except Raised Client}
    (known : m.remembered = some o) (events : List Event) (cycle calls : Nat) :
    run getClient (.keystone :: events) m cycle calls =
      ⟨cycle, none, o⟩ :: run getClient events m cycle calls := by
  have stays : m.needsClient = false :=
    Bool.eq_false_iff.mpr fun h => by simp [(AgentManager.needsClient_iff m).mp h] at known
  simp [run, AgentManager.keystone_of_remembered _ known, stays]

/-- A `keystone` access in a state that remembers nothing: the next call of `get_client`. -/
theorem run_keystone_of_fresh {m : AgentManager} (fresh : m.remembered = none)
    (events : List Event) (cycle calls : Nat) :
    run getClient (.keystone :: events) m cycle calls =
      ⟨cycle, some calls, AgentManager.reported (getClient calls)⟩ ::
        run getClient events (m.keystone (getClient calls)).2 cycle (calls + 1) := by
  simp [run, (AgentManager.needsClient_iff m).mpr fresh,
    (AgentManager.keystone_of_needsClient (getClient calls) fresh).1]

/-- A run has no access in a cycle before the one it starts in. -/
theorem cycleAccesses_run_of_lt (events : List Event) (m : AgentManager) (cycle calls : Nat)
    {c : Nat} (before : c < cycle) : cycleAccesses (run getClient events m cycle calls) c = [] := by
  induction events generalizing m cycle calls with
  | nil => rfl
  | cons e events ih =>
    cases e with
    | intervalTask => exact ih _ _ _ (Nat.lt_succ_of_lt before)
    | keystone =>
      cases known : m.remembered with
      | some o =>
        rw [run_keystone_of_remembered getClient known,
          cycleAccesses_cons_of_ne _ (Nat.ne_of_gt before), ih _ _ _ before]
      | none =>
        rw [run_keystone_of_fresh getClient known,
          cycleAccesses_cons_of_ne _ (Nat.ne_of_gt before), ih _ _ _ before]

/-- The run lemma: the current cycle obeys the law from what the state remembers,
and every later cycle obeys it from a fresh state. -/
theorem run_cycleLaw (events : List Event) (m : AgentManager) (cycle calls : Nat) :
    CycleLaw getClient m.remembered (cycleAccesses (run getClient events m cycle calls) cycle) ∧
      ∀ c > cycle, CycleLaw getClient none (cycleAccesses (run getClient events m cycle calls) c) := by
  induction events generalizing m cycle calls with
  | nil => exact ⟨cycleLaw_nil getClient _, fun _ _ => cycleLaw_nil getClient _⟩
  | cons e events ih =>
    cases e with
    | intervalTask =>
      obtain ⟨next, later⟩ := ih m.intervalTask (cycle + 1) calls
      refine ⟨?_, fun c above => ?_⟩
      · show CycleLaw getClient _ (cycleAccesses (run getClient events _ (cycle + 1) calls) cycle)
        rw [cycleAccesses_run_of_lt getClient events _ _ calls (Nat.lt_succ_self cycle)]
        exact cycleLaw_nil getClient _
      · rcases Nat.lt_or_ge (cycle + 1) c with h | h
        · exact later c h
        · obtain rfl : c = cycle + 1 := by omega
          exact next
    | keystone =>
      cases known : m.remembered with
      | some o =>
        obtain ⟨now, later⟩ := ih m cycle calls
        rw [known] at now
        rw [run_keystone_of_remembered getClient known, cycleAccesses_cons_of_eq _ rfl]
        refine ⟨?_, fun c above => ?_⟩
        · exact List.forall_mem_cons.mpr ⟨⟨rfl, rfl⟩, now⟩
        · rw [cycleAccesses_cons_of_ne _ (Nat.ne_of_lt above)]
          exact later c above
      | none =>
        obtain ⟨-, remembers⟩ := AgentManager.keystone_of_needsClient (getClient calls) known
        obtain ⟨now, later⟩ := ih (m.keystone (getClient calls)).2 cycle (calls + 1)
        rw [remembers] at now
        rw [run_keystone_of_fresh getClient known, cycleAccesses_cons_of_eq _ rfl]
        refine ⟨?_, fun c above => ?_⟩
        · exact ⟨calls, rfl, rfl, now⟩
        · rw [cycleAccesses_cons_of_ne _ (Nat.ne_of_lt above)]
          exact later c above

/-- A cycle started fresh: `get_client` is called at most once, by the first access,
and every access has one outcome. -/
theorem cycleLaw_none {accesses : List Access} (law : CycleLaw getClient none accesses) :
    (accesses.filter fun a => a.call.isSome).length ≤ 1 ∧
      (∀ a ∈ accesses, ∀ b ∈ accesses, a.outcome = b.outcome) ∧
      ∀ a, accesses.head? = some a → ∃ n, a.call = some n ∧
        a.outcome = AgentManager.reported (getClient n) := by
  cases accesses with
  | nil => simp
  | cons a rest =>
    obtain ⟨n, call, outcome, rest_law⟩ := law
    have quiet : rest.filter (fun b => b.call.isSome) = [] :=
      List.filter_eq_nil_iff.mpr fun b member => by simp [(rest_law b member).2]
    refine ⟨by simp [List.filter_cons, quiet, call], fun x hx y hy => ?_, fun b head => ?_⟩
    · have outcomeOf : ∀ z ∈ a :: rest, z.outcome = a.outcome := fun z hz => by
        rcases List.mem_cons.mp hz with rfl | hz
        · rfl
        · exact (rest_law z hz).1
      rw [outcomeOf x hx, outcomeOf y hy]
    · cases head
      exact ⟨n, call, outcome⟩

/-- Per-cycle memoisation of the keystone client, over every run from `__init__`:
in every cycle (the one before the first reset included), `get_client` is called at
most once, the cycle's first access makes that call, and all the cycle's accesses
return the same client or raise the same exception, the one that call gave. -/
theorem keystone_once_per_cycle (events : List Event) (c : Nat) :
    let accesses := cycleAccesses (run getClient events AgentManager.init 0 0) c
    (accesses.filter fun a => a.call.isSome).length ≤ 1 ∧
      (∀ a ∈ accesses, ∀ b ∈ accesses, a.outcome = b.outcome) ∧
      ∀ a, accesses.head? = some a → ∃ n, a.call = some n ∧
        a.outcome = AgentManager.reported (getClient n) := by
  obtain ⟨first, later⟩ := run_cycleLaw getClient events AgentManager.init 0 0
  rcases Nat.eq_zero_or_pos c with rfl | pos
  · exact cycleLaw_none getClient first
  · exact cycleLaw_none getClient (later c pos)

end

end Ceilometer.Agent
