import Conproxy.Server.Exits
import Conproxy.Server.Isolation

/-!
# The protection of the upstreams

Every upstream query that the server makes for a client, with what guards it: the answer of the
circuit breaker, the permit of the global semaphore, and the outcomes that the breaker was told.
Only the leader of `execute_query` asks the breaker and tells it the outcome, and only what goes
through `dispatch_upstream_query` takes a permit. A leader may make several attempts; each one
takes a permit of its own.
-/

namespace Conproxy

open CacheStore Machine

set_option autoImplicit false

/-- The task waits for an upstream on behalf of a client. -/
def Task.asks : Task → Bool
  | .leading .. | .federating _ | .refreshing _ | .warming _ => true
  | .embedding .. | .waiting .. | .tracking _ => false

/-- The leader of a call of `execute_query`. -/
def Task.leadsQuery : Task → Bool
  | .leading c _ _ _ => c.handler = .query
  | _ => false

/-- The task goes through `dispatch_upstream_query`. -/
def Task.dispatches : Task → Bool
  | .leading .. => true
  | _ => false

/-- The answer of the circuit breaker, where it is asked. -/
def Event.allowed : Event → Bool
  | .query _ _ _ _ allowed => allowed
  | .embedded _ _ _ allowed => allowed
  | _ => false

structure UpstreamQuery where
  allowed : Bool
  /-- An attempt is at the upstream. -/
  running : Bool
  permit : Bool
  finished : Bool
  records : Nat
deriving DecidableEq

structure Guarded where
  server : Server
  permits : Nat
  queries : AList fun _ : Nat => UpstreamQuery

inductive GuardedEvent where
  | act (a : Action)
  /-- The attempt of a leader failed, and the policy allows another one. -/
  | failed (id : Nat)
  /-- The delay is over. -/
  | attempt (id : Nat)

namespace Guarded

/-- `try_acquire` and, with a permit, the query. -/
def tryAcquire (g : Guarded) (id : Nat) (q : UpstreamQuery) : Guarded :=
  if g.permits = 0 then { g with queries := g.queries.insert id q }
  else
    { g with
      permits := g.permits - 1
      queries := g.queries.insert id { q with running := true, permit := true } }

/-- A task asks its upstream for the first time. -/
def start (g : Guarded) (allowed : Bool) (id : Nat) (task : Task) : Guarded :=
  if task.dispatches then g.tryAcquire id ⟨allowed, false, false, false, 0⟩
  else if task.asks then
    { g with queries := g.queries.insert id ⟨false, true, false, false, 0⟩ }
  else g

/-- The permit of an attempt goes back when the attempt is over. -/
def release (g : Guarded) (id : Nat) (q : UpstreamQuery) : Guarded :=
  { g with
    permits := if q.permit then g.permits + 1 else g.permits
    queries := g.queries.insert id { q with running := false, permit := false } }

def finish (g : Guarded) (recorded : Bool) (id : Nat) : Guarded :=
  match g.queries.lookup id with
  | some q =>
    g.release id
      { q with finished := true, records := if recorded then q.records + 1 else q.records }
  | none => g

/-- The outcome is recorded in the circuit breaker. -/
def records (g : Guarded) (a : Action) : Bool :=
  match a.event with
  | .returned id _ _ => ((g.server.tasks.lookup id).map Task.leadsQuery).getD false
  | _ => false

variable (p : Platform)

def act (g : Guarded) (a : Action) : Guarded :=
  let g' :=
    match g.server.ended a with
    | some id => g.finish (g.records a) id
    | none => g
  let g' :=
    match g.server.begun p a with
    | some (id, task) => g'.start a.event.allowed id task
    | none => g'
  { g' with server := g.server.step p a }

/-- The query of a leader that is still waiting for its outcome. -/
def leader (g : Guarded) (id : Nat) : Option UpstreamQuery :=
  match g.server.tasks.lookup id with
  | some task => if task.leadsQuery then g.queries.lookup id else none
  | none => none

def step (g : Guarded) : GuardedEvent → Guarded
  | .act a => g.act p a
  | .failed id =>
    match g.leader id with
    | some q => g.release id q
    | none => g
  | .attempt id =>
    match g.leader id with
    | some q => if q.running then g else g.tryAcquire id q
    | none => g

end Guarded

/-- The query was allowed by the circuit breaker, is only made with a permit, and its outcome is
recorded once. -/
structure UpstreamQuery.Protected (q : UpstreamQuery) : Prop where
  allowed : q.allowed = true
  permit : q.running = true → q.permit = true
  recorded : q.records = if q.finished then 1 else 0

def Guarded.Protected (g : Guarded) : Prop :=
  ∀ id q, g.queries.lookup id = some q → q.Protected

/-- The step asks no upstream for a client but as the leader of a query, and drops no task that
has asked one. -/
def Guarded.Disciplined (p : Platform) (g : Guarded) : GuardedEvent → Prop
  | .act a =>
    (∀ id task, g.server.begun p a = some (id, task) → task.asks = true →
      task.leadsQuery = true) ∧
    ∀ id task, a.event = .dropped id → g.server.tasks.lookup id = some task → task.asks = false
  | .failed _ => True
  | .attempt _ => True

/-- The queries that have not finished are those of the tasks that wait for an upstream. -/
structure Guarded.Kept (g : Guarded) : Prop where
  taskNumber : g.server.Numbered
  queryNumber : ∀ id q, g.queries.lookup id = some q → id < g.server.nextTask
  waiting : ∀ id q task, g.queries.lookup id = some q → g.server.tasks.lookup id = some task →
    q.finished = false ∧ task.asks = true ∧ (q.allowed = true → task.leadsQuery = true)
  asked : ∀ id task, g.server.tasks.lookup id = some task → task.asks = true →
    ∃ q, g.queries.lookup id = some q
  embedding : ∀ id c missReason,
    g.server.tasks.lookup id = some (.embedding c missReason) → c.handler = .query

/-- The query of a task that has just begun. -/
def UpstreamQuery.opened (permits : Nat) (allowed : Bool) (task : Task) : UpstreamQuery :=
  if task.dispatches then ⟨allowed, permits ≠ 0, permits ≠ 0, false, 0⟩
  else ⟨false, true, false, false, 0⟩

def UpstreamQuery.closed (recorded : Bool) (q : UpstreamQuery) : UpstreamQuery :=
  ⟨q.allowed, false, false, true, if recorded then q.records + 1 else q.records⟩

theorem Task.asks_of_dispatches {task : Task} (h : task.dispatches = true) : task.asks = true := by
  cases task with
  | leading => rfl
  | _ => cases h

theorem Task.asks_of_leadsQuery {task : Task} (h : task.leadsQuery = true) :
    task.asks = true ∧ task.dispatches = true := by
  cases task with
  | leading => exact ⟨rfl, rfl⟩
  | _ => cases h

namespace Guarded

variable {p : Platform} {g : Guarded}

theorem lookup_start (allowed : Bool) (id : Nat) (task : Task) (i : Nat) :
    (g.start allowed id task).queries.lookup i =
      if id = i ∧ task.asks = true then some (.opened g.permits allowed task)
      else g.queries.lookup i := by
  have hinsert (q : UpstreamQuery) (hasks : task.asks = true) :
      (g.queries.insert id q).lookup i =
        if id = i ∧ task.asks = true then some q else g.queries.lookup i := by
    by_cases hi : id = i
    · subst hi
      simp [hasks]
    · simp [hi, AList.lookup_insert_ne (Ne.symm hi)]
  unfold start UpstreamQuery.opened tryAcquire
  cases hdispatches : task.dispatches with
  | true =>
    have hasks := Task.asks_of_dispatches hdispatches
    by_cases hpermits : g.permits = 0
    · simpa [hpermits] using hinsert _ hasks
    · simpa [hpermits] using hinsert _ hasks
  | false =>
    cases hasks : task.asks with
    | true => simpa [hasks] using hinsert _ hasks
    | false => simp

theorem lookup_finish (recorded : Bool) (id i : Nat) :
    (g.finish recorded id).queries.lookup i =
      if id = i then (g.queries.lookup i).map (.closed recorded) else g.queries.lookup i := by
  unfold finish
  cases hl : g.queries.lookup id with
  | none =>
    by_cases hi : id = i
    · subst hi
      simp [hl]
    · simp [hi]
  | some q =>
    by_cases hi : id = i
    · subst hi
      simp [release, hl, UpstreamQuery.closed]
    · simp [release, hi, AList.lookup_insert_ne (Ne.symm hi)]

/-- The query that a step opens under a number. -/
def opens (p : Platform) (g : Guarded) (a : Action) (i : Nat) : Option Task :=
  match g.server.begun p a with
  | some (id, task) => if id = i ∧ task.asks = true then some task else none
  | none => none

theorem opens_eq_some {a : Action} {i : Nat} {task : Task} (h : g.opens p a i = some task) :
    g.server.begun p a = some (i, task) ∧ task.asks = true := by
  unfold opens at h
  split at h
  · rename_i id task' hbegun
    split at h
    · rename_i hopens
      cases h
      exact ⟨hopens.1 ▸ hbegun, hopens.2⟩
    · cases h
  · cases h

theorem opens_of_begun {a : Action} {i : Nat} {task : Task}
    (hbegun : g.server.begun p a = some (i, task)) (hasks : task.asks = true) :
    g.opens p a i = some task := by
  simp [opens, hbegun, hasks]

/-- A step first settles the query of the task that it takes up or drops. -/
def settled (g : Guarded) (a : Action) : Guarded :=
  match g.server.ended a with
  | some id => g.finish (g.records a) id
  | none => g

theorem lookup_settled (a : Action) (i : Nat) :
    (g.settled a).queries.lookup i =
      if g.server.ended a = some i then (g.queries.lookup i).map (.closed (g.records a))
      else g.queries.lookup i := by
  unfold settled
  cases g.server.ended a with
  | none => simp
  | some id =>
    dsimp only
    rw [lookup_finish]
    by_cases hi : id = i
    · simp [hi]
    · simp [hi]

/-- The queries after a step, by number. -/
theorem lookup_act (a : Action) (i : Nat) :
    ∃ n, (g.act p a).queries.lookup i =
      match g.opens p a i with
      | some task => some (.opened n a.event.allowed task)
      | none =>
        if g.server.ended a = some i then (g.queries.lookup i).map (.closed (g.records a))
        else g.queries.lookup i := by
  have hact : (g.act p a).queries =
      (match g.server.begun p a with
        | some (id, task) => (g.settled a).start a.event.allowed id task
        | none => g.settled a).queries := rfl
  refine ⟨(g.settled a).permits, ?_⟩
  rw [hact, ← lookup_settled]
  unfold opens
  cases g.server.begun p a with
  | none => rfl
  | some found =>
    obtain ⟨id, task⟩ := found
    dsimp only
    rw [lookup_start]
    split <;> rfl

theorem missExit_leads {s : Server} {c : Client} {allowed : Bool}
    (h : s.missExit p c allowed = .leads) : allowed = true := by
  unfold Server.missExit at h
  cases allowed with
  | true => rfl
  | false =>
    simp only [Bool.false_eq_true, if_false] at h
    split at h
    · split at h <;> cases h
    · split at h <;> cases h

theorem queryExit_leads {s : Server} {now : Clock} {c : Client} {agent : Option AgentIdentity}
    {skipCache allowed : Bool} (h : s.queryExit p now c agent skipCache allowed = .leads) :
    allowed = true := by
  have htier : s.tierExit p c allowed = .leads → allowed = true := by
    intro ht
    unfold Server.tierExit at ht
    split at ht
    · cases ht
    · exact missExit_leads ht
  unfold Server.queryExit at h
  split at h
  · cases h
  · split at h
    · cases h
    · split at h
      · cases h
      · split at h
        · exact missExit_leads h
        · split at h
          · cases h
          · cases h
          · exact htier h

theorem semanticExit_leads {s : Server} {now : Clock} {c : Client} {embedded : Option Embedding}
    {scan : TierScan} {allowed : Bool}
    (h : s.semanticExit p now c embedded scan allowed = .leads) : allowed = true := by
  unfold Server.semanticExit at h
  split at h
  · cases h
  · exact missExit_leads h

theorem leading_of_exit {s : Server} {id n : Nat} {c : Client} {missReason : MissReason}
    {embedding : Option Embedding} {exit : Exit} {task : Task}
    (h : exit.task s n c missReason embedding = some (id, task))
    (hdispatches : task.dispatches = true) :
    exit = .leads ∧ task.leadsQuery = decide (c.handler = .query) := by
  rcases Server.exit_task_cases h with
    ⟨-, -, rfl⟩ | ⟨hleads, -, rfl⟩ | ⟨_, -, -, rfl⟩ | ⟨-, -, -, rfl⟩
  · cases hdispatches
  · exact ⟨hleads, rfl⟩
  · cases hdispatches
  · cases hdispatches

/-- A leader is that of a query exactly if the circuit breaker allowed it. -/
theorem leadsQuery_iff_allowed (hg : g.Kept) {a : Action} {id : Nat} {task : Task}
    (hbegun : g.server.begun p a = some (id, task)) (hdispatches : task.dispatches = true) :
    task.leadsQuery = true ↔ a.event.allowed = true := by
  cases Server.begunBy hbegun with
  | query contextId request agent skipCache allowed hevent htask =>
    obtain ⟨hleads, hquery⟩ := leading_of_exit htask hdispatches
    rw [hevent, hquery]
    exact iff_of_true rfl (queryExit_leads hleads)
  | item t contextId request agent upstreams hevent hid htask =>
    rw [hevent]
    obtain ⟨missReason, rfl⟩ | ⟨receiver, rfl⟩ := htask
    · exact iff_of_false (by simp [Task.leadsQuery]) nofun
    · cases hdispatches
  | federated _ _ _ _ _ _ _ _ htask =>
    obtain ⟨c, rfl⟩ := htask
    cases hdispatches
  | embedded embedding tierScan allowed c missReason hevent hlookup htask =>
    obtain ⟨hleads, hquery⟩ := leading_of_exit htask hdispatches
    rw [hevent, hquery, hg.embedding id c missReason hlookup]
    exact iff_of_true rfl (semanticExit_leads hleads)
  | tracking _ _ _ _ _ htask | warming _ _ _ _ htask =>
    subst htask
    cases hdispatches

/-- Only a call of `execute_query` is suspended for its embedding. -/
theorem handler_of_embedding {s : Server} {a : Action} {id : Nat} {c : Client}
    {missReason : MissReason} (h : s.begun p a = some (id, .embedding c missReason)) :
    c.handler = .query := by
  cases Server.begunBy h with
  | query contextId request agent skipCache allowed hevent htask =>
    rcases Server.exit_task_cases htask with
      ⟨-, -, heq⟩ | ⟨-, -, heq⟩ | ⟨_, -, -, heq⟩ | ⟨-, -, -, heq⟩
    · cases heq
      rfl
    · cases heq
    · cases heq
    · cases heq
  | item _ _ _ _ _ _ _ htask => obtain ⟨_, heq⟩ | ⟨_, heq⟩ := htask <;> cases heq
  | federated _ _ _ _ _ _ _ _ htask =>
    obtain ⟨_, heq⟩ := htask
    cases heq
  | embedded embedding tierScan allowed c missReason hevent hlookup htask =>
    rcases Server.exit_task_cases htask with
      ⟨hembeds, -⟩ | ⟨-, -, heq⟩ | ⟨_, -, -, heq⟩ | ⟨-, -, -, heq⟩
    · exact absurd hembeds Server.semanticExit_ne.2
    · cases heq
    · cases heq
    · cases heq
  | tracking _ _ _ _ _ htask | warming _ _ _ _ htask => cases htask

/-! ## The table is kept -/

theorem Kept.fresh (hg : g.Kept) {a : Action} {id : Nat} {task : Task}
    (hbegun : g.server.begun p a = some (id, task)) : g.queries.lookup id = none := by
  cases hl : g.queries.lookup id with
  | none => rfl
  | some q =>
    rcases Server.begun_number hbegun with ⟨hle, -⟩ | ⟨-, c, missReason, htask⟩
    · exact absurd (hg.queryNumber id q hl) (Nat.not_lt.2 hle)
    · exact absurd (hg.waiting id q _ hl htask).2.1 nofun

theorem Kept.begun_lt (hg : g.Kept) {a : Action} {id : Nat} {task : Task}
    (hbegun : g.server.begun p a = some (id, task)) : id < (g.server.step p a).nextTask :=
  Server.Numbered.begun_lt hg.taskNumber hbegun

theorem server_act (a : Action) : (g.act p a).server = g.server.step p a := by
  simp only [act]

theorem task_cases {a : Action} {id : Nat} {task : Task}
    (h : (g.act p a).server.tasks.lookup id = some task) :
    g.server.begun p a = some (id, task) ∨
      (∀ task', g.server.begun p a ≠ some (id, task')) ∧ g.server.ended a ≠ some id ∧
        g.server.tasks.lookup id = some task :=
  Server.task_cases (server_act (p := p) (g := g) a ▸ h)

/-- Where the queries after a step come from. -/
theorem query_cases {a : Action} {id : Nat} {q : UpstreamQuery}
    (h : (g.act p a).queries.lookup id = some q) :
    (∃ n task, g.server.begun p a = some (id, task) ∧ task.asks = true ∧
      q = .opened n a.event.allowed task) ∨
    g.opens p a id = none ∧ ∃ q₀, g.queries.lookup id = some q₀ ∧
      q = if g.server.ended a = some id then .closed (g.records a) q₀ else q₀ := by
  obtain ⟨n, hlookup⟩ := lookup_act (p := p) (g := g) a id
  rw [hlookup] at h
  cases hopens : g.opens p a id with
  | some task =>
    rw [hopens] at h
    cases h
    obtain ⟨hbegun, hasks⟩ := opens_eq_some hopens
    exact .inl ⟨n, task, hbegun, hasks, rfl⟩
  | none =>
    rw [hopens] at h
    refine .inr ⟨rfl, ?_⟩
    dsimp only at h
    split at h
    · rename_i hended
      obtain ⟨q₀, hq₀, rfl⟩ := Option.map_eq_some_iff.1 h
      exact ⟨q₀, hq₀, (if_pos hended).symm⟩
    · rename_i hended
      exact ⟨q, h, (if_neg hended).symm⟩

theorem finished_opened (n : Nat) (allowed : Bool) (task : Task) :
    (UpstreamQuery.opened n allowed task).finished = false := by
  unfold UpstreamQuery.opened
  split <;> rfl

theorem allowed_opened {n : Nat} {allowed : Bool} {task : Task}
    (h : (UpstreamQuery.opened n allowed task).allowed = true) :
    task.dispatches = true ∧ allowed = true := by
  unfold UpstreamQuery.opened at h
  split at h
  · rename_i hdispatches
    exact ⟨hdispatches, h⟩
  · cases h

theorem Kept.act (hg : g.Kept) (a : Action) : (g.act p a).Kept where
  taskNumber := Server.Numbered.step hg.taskNumber a
  queryNumber := by
    intro id q h
    rcases query_cases h with ⟨n, task, hbegun, -, -⟩ | ⟨-, q₀, hl, -⟩
    · exact hg.begun_lt hbegun
    · refine (hg.queryNumber id q₀ hl).trans_le ?_
      exact (Server.nextTask_step g.server a).symm ▸ Nat.le_add_right _ _
  waiting := by
    intro id q task hq htask
    rcases query_cases hq with ⟨n, task', hbegun, hasks, rfl⟩ | ⟨hopens, q₀, hl, rfl⟩
    · obtain rfl : task' = task := by
        rcases task_cases htask with hbegun' | ⟨hnone, -, -⟩
        · rw [hbegun] at hbegun'
          cases hbegun'
          rfl
        · exact absurd hbegun (hnone task')
      refine ⟨finished_opened n _ task', hasks, fun hallowed => ?_⟩
      obtain ⟨hdispatches, hevent⟩ := allowed_opened hallowed
      exact (leadsQuery_iff_allowed hg hbegun hdispatches).2 hevent
    · rcases task_cases htask with hbegun | ⟨-, hended, htask⟩
      · rw [hg.fresh hbegun] at hl
        cases hl
      · rw [if_neg hended]
        exact hg.waiting id q₀ task hl htask
  asked := by
    intro id task htask hasks
    obtain ⟨n, hlookup⟩ := lookup_act (p := p) (g := g) a id
    rcases task_cases htask with hbegun | ⟨hnone, hended, htask⟩
    · rw [opens_of_begun hbegun hasks] at hlookup
      exact ⟨_, hlookup⟩
    · have hopens : g.opens p a id = none := by
        cases hopens : g.opens p a id with
        | none => rfl
        | some task' => exact absurd (opens_eq_some hopens).1 (hnone task')
      obtain ⟨q, hq⟩ := hg.asked id task htask hasks
      rw [hopens] at hlookup
      dsimp only at hlookup
      rw [if_neg hended, hq] at hlookup
      exact ⟨q, hlookup⟩
  embedding := by
    intro id c missReason htask
    rcases task_cases htask with hbegun | ⟨-, -, htask⟩
    · exact handler_of_embedding hbegun
    · exact hg.embedding id c missReason htask

/-- An attempt changes nothing but the permit and whether it runs. -/
theorem Kept.update (hg : g.Kept) {id : Nat} {q q' : UpstreamQuery} {g' : Guarded}
    (hl : g.queries.lookup id = some q) (hserver : g'.server = g.server)
    (hqueries : g'.queries = g.queries.insert id q') (hfinished : q'.finished = q.finished)
    (hallowed : q'.allowed = q.allowed) : g'.Kept := by
  have hlookup (i : Nat) (x : UpstreamQuery) (h : g'.queries.lookup i = some x) :
      ∃ y, g.queries.lookup i = some y ∧ x.finished = y.finished ∧ x.allowed = y.allowed := by
    rw [hqueries] at h
    by_cases hi : i = id
    · subst hi
      rw [AList.lookup_insert] at h
      cases h
      exact ⟨q, hl, hfinished, hallowed⟩
    · rw [AList.lookup_insert_ne hi] at h
      exact ⟨x, h, rfl, rfl⟩
  constructor
  · rw [hserver]
    exact hg.taskNumber
  · intro i x h
    obtain ⟨y, hy, -, -⟩ := hlookup i x h
    rw [hserver]
    exact hg.queryNumber i y hy
  · intro i x task h htask
    obtain ⟨y, hy, hfin, hall⟩ := hlookup i x h
    rw [hserver] at htask
    rw [hfin, hall]
    exact hg.waiting i y task hy htask
  · intro i task htask hasks
    rw [hserver] at htask
    obtain ⟨y, hy⟩ := hg.asked i task htask hasks
    rw [hqueries]
    by_cases hi : i = id
    · subst hi
      exact ⟨q', AList.lookup_insert _⟩
    · exact ⟨y, (AList.lookup_insert_ne hi).trans hy⟩
  · rw [hserver]
    exact hg.embedding

theorem leader_eq_some {id : Nat} {q : UpstreamQuery} (h : g.leader id = some q) :
    g.queries.lookup id = some q := by
  unfold leader at h
  split at h
  · split at h
    · exact h
    · cases h
  · cases h

theorem Kept.step (hg : g.Kept) (e : GuardedEvent) : (g.step p e).Kept := by
  cases e with
  | act a => exact hg.act a
  | failed id =>
    simp only [Guarded.step]
    cases hq : g.leader id with
    | none => exact hg
    | some q => exact hg.update (leader_eq_some hq) rfl rfl rfl rfl
  | attempt id =>
    simp only [Guarded.step]
    cases hq : g.leader id with
    | none => exact hg
    | some q =>
      dsimp only
      split
      · exact hg
      · unfold tryAcquire
        split
        · exact hg.update (leader_eq_some hq) rfl rfl rfl rfl
        · exact hg.update (leader_eq_some hq) rfl rfl rfl rfl

theorem protected_opened {n : Nat} {allowed : Bool} {task : Task}
    (hdispatches : task.dispatches = true) (hallowed : allowed = true) :
    (UpstreamQuery.opened n allowed task).Protected := by
  unfold UpstreamQuery.opened
  rw [if_pos hdispatches]
  exact ⟨hallowed, fun h => h, rfl⟩

/-- The task that a step takes up has been asked, or is dropped. -/
theorem Kept.ended_cases (hg : g.Kept) {a : Action} {id : Nat} {q : UpstreamQuery}
    (hq : g.queries.lookup id = some q) (hended : g.server.ended a = some id) :
    ∃ task, g.server.tasks.lookup id = some task ∧ task.asks = true ∧
      (a.event = .dropped id ∨ g.records a = task.leadsQuery) := by
  obtain ⟨now, scan, event⟩ := a
  cases event with
  | embedded id' embedding scan allowed =>
    simp only [Server.ended] at hended
    split at hended
    · rename_i c missReason hl
      cases hended
      exact absurd (hg.waiting id q _ hq hl).2.1 Bool.false_ne_true
    · cases hended
  | returned id' outcome computed =>
    simp only [Server.ended] at hended
    split at hended
    · cases hended
    · cases hended
    · cases hended
    · rename_i task _ _ hl
      cases hended
      refine ⟨task, hl, (hg.waiting id q task hq hl).2.1, .inr ?_⟩
      simp only [records, hl]
      rfl
  | received id' =>
    simp only [Server.ended] at hended
    split at hended
    · rename_i c receiver hl
      obtain ⟨_, -, rfl⟩ := Option.map_eq_some_iff.1 hended
      exact absurd (hg.waiting id' q _ hq hl).2.1 Bool.false_ne_true
    · cases hended
  | dropped id' =>
    obtain ⟨task, hl, rfl⟩ := Option.map_eq_some_iff.1 hended
    exact ⟨task, hl, (hg.waiting id' q task hq hl).2.1, .inl rfl⟩
  | query | batch | federated | refreshStale | warmup | replicated | maintenance
  | reconfigured => cases hended

theorem Protected.act (hp : g.Protected) (hg : g.Kept) {a : Action}
    (hd : g.Disciplined p (.act a)) : (g.act p a).Protected := by
  intro id q hq
  rcases query_cases hq with ⟨n, task, hbegun, hasks, rfl⟩ | ⟨-, q₀, hl, rfl⟩
  · have hleads := hd.1 id task hbegun hasks
    have hdispatches := (Task.asks_of_leadsQuery hleads).2
    exact protected_opened hdispatches
      ((leadsQuery_iff_allowed hg hbegun hdispatches).1 hleads)
  · have hprotected := hp id q₀ hl
    split
    · rename_i hended
      obtain ⟨task, htask, hasks, hdropped | hrecords⟩ := hg.ended_cases hl hended
      · rw [hd.2 id task hdropped htask] at hasks
        cases hasks
      · obtain ⟨hfinished, -, hleads⟩ := hg.waiting id q₀ task hl htask
        have hzero := hprotected.recorded
        rw [hfinished] at hzero
        rw [hrecords, hleads hprotected.allowed]
        exact ⟨hprotected.allowed, nofun, congrArg (· + 1) hzero⟩
    · exact hprotected

/-- A step that asks an upstream past the guards, or drops a task that has asked one, leaves a
query that is not protected. -/
theorem Protected.disciplined (hp : g.Protected) (hg : g.Kept) {a : Action}
    (hp' : (g.act p a).Protected) : g.Disciplined p (.act a) := by
  refine ⟨fun id task hbegun hasks => ?_, fun id task hevent htask => ?_⟩
  · obtain ⟨n, hlookup⟩ := lookup_act (p := p) (g := g) a id
    rw [opens_of_begun hbegun hasks] at hlookup
    obtain ⟨hdispatches, hallowed⟩ := allowed_opened (hp' id _ hlookup).allowed
    exact (leadsQuery_iff_allowed hg hbegun hdispatches).2 hallowed
  · cases hasks : task.asks with
    | false => rfl
    | true =>
      obtain ⟨q, hq⟩ := hg.asked id task htask hasks
      have hended : g.server.ended a = some id := by
        simp only [Server.ended, hevent, htask, Option.map_some]
      have hopens : g.opens p a id = none := by
        simp only [opens, Server.begun, hevent]
      have hrecords : g.records a = false := by
        simp only [records, hevent]
      obtain ⟨n, hlookup⟩ := lookup_act (p := p) (g := g) a id
      rw [hopens] at hlookup
      dsimp only at hlookup
      rw [if_pos hended, hq, hrecords] at hlookup
      have hzero := (hp id q hq).recorded
      rw [(hg.waiting id q task hq htask).1] at hzero
      have hone : q.records = 1 := (hp' id _ hlookup).recorded
      rw [hone] at hzero
      cases hzero

theorem Protected.update (hp : g.Protected) {id : Nat} {q q' : UpstreamQuery} {g' : Guarded}
    (hl : g.queries.lookup id = some q) (hqueries : g'.queries = g.queries.insert id q')
    (hallowed : q'.allowed = q.allowed) (hpermit : q'.running = true → q'.permit = true)
    (hfinished : q'.finished = q.finished) (hrecords : q'.records = q.records) :
    g'.Protected := by
  intro i x h
  rw [hqueries] at h
  by_cases hi : i = id
  · subst hi
    rw [AList.lookup_insert] at h
    cases h
    have hq := hp i q hl
    exact ⟨hallowed.trans hq.allowed, hpermit, by rw [hrecords, hfinished, hq.recorded]⟩
  · rw [AList.lookup_insert_ne hi] at h
    exact hp i x h

theorem protected_step_iff (hg : g.Kept) (hp : g.Protected) (e : GuardedEvent) :
    (g.step p e).Protected ↔ g.Disciplined p e := by
  cases e with
  | act a => exact ⟨hp.disciplined hg, hp.act hg⟩
  | failed id =>
    refine iff_of_true ?_ trivial
    simp only [Guarded.step]
    cases hq : g.leader id with
    | none => exact hp
    | some q => exact hp.update (leader_eq_some hq) rfl rfl nofun rfl rfl
  | attempt id =>
    refine iff_of_true ?_ trivial
    simp only [Guarded.step]
    cases hq : g.leader id with
    | none => exact hp
    | some q =>
      dsimp only
      split
      · exact hp
      · unfold tryAcquire
        split
        · exact hp.update (leader_eq_some hq) rfl rfl (hp id q (leader_eq_some hq)).permit rfl rfl
        · exact hp.update (leader_eq_some hq) rfl rfl (fun _ => rfl) rfl rfl

/-- No call is under way yet. -/
def new (s : Server) (permits : Nat) : Guarded := ⟨{ s with tasks := ∅ }, permits, ∅⟩

theorem kept_new (s : Server) (permits : Nat) : (new s permits).Kept where
  taskNumber := by
    intro id task h
    cases h
  queryNumber := by
    intro id q h
    cases h
  waiting := by
    intro id q task h
    cases h
  asked := by
    intro id task h
    cases h
  embedding := by
    intro id c missReason h
    cases h

theorem protected_new (s : Server) (permits : Nat) : (new s permits).Protected := by
  intro id q h
  cases h

/-- Every upstream query is protected in every state of a run exactly if the run asks upstreams
for the leaders of `execute_query` only, and drops none of them. -/
theorem upstreams_protected_iff (p : Platform) (s : Server) (permits : Nat)
    (events : List GuardedEvent) :
    AllSteps (step p) (fun g e => (g.step p e).Protected) (new s permits) events ↔
      AllSteps (step p) (fun g e => g.Disciplined p e) (new s permits) events := by
  have hkept : ∀ g e, Kept g → (g.step p e).Kept := fun _ e hg => hg.step e
  have hstep : ∀ g e, Kept g → Guarded.Protected g →
      ((g.step p e).Protected ↔ g.Disciplined p e) :=
    fun _ e hg hp => protected_step_iff hg hp e
  exact allSteps_congr_of_invariant hkept hstep (kept_new s permits) (protected_new s permits)

def batchOfOne : Action :=
  actionAt 0 (.batch .http "a" ⟨"q", none, none, none, none⟩ none ⟨false, false, true⟩)

/-- The upstream query of a batch is made without asking the circuit breaker. -/
theorem batch_item_not_allowed :
    ¬ ∀ (p : Platform) (s : Server) (permits : Nat) (events : List GuardedEvent),
      AllSteps (step p) (fun g e => (g.step p e).Protected) (new s permits) events := by
  intro h
  have hleads : (smallServer.begun Platform.sample batchOfOne).any fun found =>
      found.2.asks && !found.2.leadsQuery := by
    decide +kernel
  obtain ⟨⟨id, task⟩, hbegun, htask⟩ := (Option.any_eq_true _ _).1 hleads
  obtain ⟨hasks, hbatch⟩ := (Bool.and_eq_true_iff).1 htask
  have hprotected := (h Platform.sample smallServer 8 [.act batchOfOne]).1
  have hdisciplined := (protected_new smallServer 8).disciplined (kept_new smallServer 8) hprotected
  rw [hdisciplined.1 id task hbegun hasks] at hbatch
  cases hbatch

end Guarded

end Conproxy
