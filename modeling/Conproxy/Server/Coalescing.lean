import Conproxy.Lib.Machine
import Conproxy.Server.State

/-!
# The coalescer as a protocol

`coalesce.rs` between the clients of one key, in its smallest steps: a client calls
`get_or_insert`; a leader's `complete` first takes the sender out of the map and then sends;
a waiter receives; a task is dropped at an await. A broadcast channel holds one message, and a
receiver sees what was sent after it subscribed.
-/

namespace Conproxy

open Machine

set_option autoImplicit false

namespace RequestCoalescer

/-- The first half of `complete`: the sender leaves the map. -/
def take (c : RequestCoalescer) (h : QueryHash) : Option Channel × RequestCoalescer :=
  match c.inFlight.lookup h with
  | some channel => (some channel, ⟨c.inFlight.erase h⟩)
  | none => (none, c)

end RequestCoalescer

/-- The server's `complete` takes the sender and sends at once. -/
theorem Server.complete_eq_take (s : Server) (h : QueryHash) (result : CoalesceResult) :
    s.complete h result =
      match s.app.coalescer.take h with
      | (some channel, coalescer) =>
        { s with
          app := { s.app with coalescer := coalescer }
          sent := s.sent.insert channel result }
      | (none, _) => s := by
  unfold Server.complete RequestCoalescer.take
  cases s.app.coalescer.inFlight.lookup h with
  | none => rfl
  | some channel => rfl

namespace Coalescing

/-- Where a task is. A waiter keeps how many messages its channel had seen when it
subscribed. -/
inductive Role (ρ : Type) where
  | leading (h : QueryHash)
  | sending (channel : Channel) (result : ρ)
  | completed
  | waiting (receiver : Channel) (seen : Nat)
  | received (receiver : Channel) (result : ρ)
  | lagged (receiver : Channel)
  | dropped
deriving DecidableEq

/-- `results` records what each channel was completed with. -/
structure State (ρ : Type) where
  coalescer : RequestCoalescer
  tasks : Nat → Option (Role ρ)
  sent : Channel → List ρ
  results : Channel → Option ρ

inductive Event (ρ : Type) where
  | getOrInsert (task : Nat) (h : QueryHash)
  | complete (task : Nat) (result : ρ)
  | send (task : Nat)
  | receive (task : Nat)
  | drop (task : Nat)

variable {ρ : Type}

def init : State ρ := ⟨RequestCoalescer.new, fun _ => none, fun _ => [], fun _ => none⟩

namespace State

def setTask (s : State ρ) (task : Nat) (role : Role ρ) : State ρ :=
  { s with tasks := Function.update s.tasks task (some role) }

def getOrInsert (s : State ρ) (task : Nat) (h : QueryHash) : State ρ :=
  match s.coalescer.getOrInsert h task with
  | (.leader, coalescer) => { s with coalescer := coalescer }.setTask task (.leading h)
  | (.waiter receiver, _) => s.setTask task (.waiting receiver (s.sent receiver).length)

/-- The leader calls `complete`. If the map has no sender, nothing is sent. -/
def take (s : State ρ) (task : Nat) (h : QueryHash) (result : ρ) : State ρ :=
  match s.coalescer.take h with
  | (some channel, coalescer) =>
    { s with
      coalescer := coalescer
      results := Function.update s.results channel (some result) }.setTask task
        (.sending channel result)
  | (none, _) => s.setTask task .completed

def send (s : State ρ) (task : Nat) (channel : Channel) (result : ρ) : State ρ :=
  { s with sent := Function.update s.sent channel (s.sent channel ++ [result]) }.setTask task
    .completed

/-- A receiver that missed a message of the one-slot buffer is told that it lagged. -/
def receive (s : State ρ) (task : Nat) (receiver : Channel) (seen : Nat) : State ρ :=
  match (s.sent receiver).drop seen with
  | [] => s
  | [result] => s.setTask task (.received receiver result)
  | _ => s.setTask task (.lagged receiver)

def step (s : State ρ) (e : Event ρ) : State ρ :=
  match e with
  | .getOrInsert task h =>
    match s.tasks task with
    | none => s.getOrInsert task h
    | some _ => s
  | .complete task result =>
    match s.tasks task with
    | some (.leading h) => s.take task h result
    | _ => s
  | .send task =>
    match s.tasks task with
    | some (.sending channel result) => s.send task channel result
    | _ => s
  | .receive task =>
    match s.tasks task with
    | some (.waiting receiver seen) => s.receive task receiver seen
    | _ => s
  | .drop task =>
    match s.tasks task with
    | some (.leading _) | some (.waiting _ _) => s.setTask task .dropped
    | _ => s

end State

/-- The step drops a leader that has not completed. -/
def dropsLeader (s : State ρ) : Event ρ → Bool
  | .drop task =>
    match s.tasks task with
    | some (.leading _) => true
    | _ => false
  | _ => false

/-! ## The invariant -/

/-- A sender is in the map from the leader's `get_or_insert` to its `complete`, then with the
leader until it has sent. So every channel carries one message at most, and a waiter always
waits on a channel whose sender exists or has sent. -/
structure Inv (s : State ρ) : Prop where
  inFlight : ∀ h channel, s.coalescer.inFlight.lookup h = some channel →
    channel.hash = h ∧ s.results channel = none ∧
      (s.tasks channel.leader = some (.leading h) ∨ s.tasks channel.leader = some .dropped)
  leading : ∀ task h, s.tasks task = some (.leading h) →
    s.coalescer.inFlight.lookup h = some ⟨h, task⟩
  sending : ∀ task channel result, s.tasks task = some (.sending channel result) →
    channel.leader = task ∧ s.sent channel = [] ∧ s.results channel = some result
  waiting : ∀ task channel seen, s.tasks task = some (.waiting channel seen) →
    seen = 0 ∧ (s.coalescer.inFlight.lookup channel.hash = some channel ∨
      ∃ result, s.results channel = some result)
  received : ∀ task channel result, s.tasks task = some (.received channel result) →
    s.results channel = some result
  lagged : ∀ task channel, s.tasks task ≠ some (.lagged channel)
  results : ∀ channel result, s.results channel = some result →
    s.sent channel = [result] ∨
      s.sent channel = [] ∧ s.tasks channel.leader = some (.sending channel result)
  unsent : ∀ channel, s.results channel = none → s.sent channel = []
  fresh : ∀ channel, s.tasks channel.leader = none → s.results channel = none

theorem inv_init : Inv (init : State ρ) where
  inFlight := by simp [init, RequestCoalescer.new]
  leading := by simp [init]
  sending := by simp [init]
  waiting := by simp [init]
  received := by simp [init]
  lagged := by simp [init]
  results := by simp [init]
  unsent := by simp [init]
  fresh := by simp [init]

namespace Inv

variable {s : State ρ}

@[simp] theorem tasks_setTask (s : State ρ) (task other : Nat) (role : Role ρ) :
    (s.setTask task role).tasks other = if other = task then some role else s.tasks other := by
  simp [State.setTask, Function.update_apply]

theorem role_of_setTask {task other : Nat} {role role' : Role ρ}
    (hl : (s.setTask task role).tasks other = some role') (hne : role ≠ role') :
    other ≠ task ∧ s.tasks other = some role' := by
  rw [tasks_setTask] at hl
  split at hl
  · exact absurd (Option.some.inj hl) hne
  · rename_i hother
    exact ⟨hother, hl⟩

theorem setTask_keeps {task other : Nat} {role role' : Role ρ} (h : s.tasks other = some role')
    (hne : s.tasks task ≠ some role') : (s.setTask task role).tasks other = some role' := by
  rw [tasks_setTask, if_neg, h]
  rintro rfl
  exact hne h

theorem none_of_setTask {task other : Nat} {role : Role ρ}
    (h : (s.setTask task role).tasks other = none) : other ≠ task ∧ s.tasks other = none := by
  rw [tasks_setTask] at h
  split at h
  · cases h
  · rename_i hother
    exact ⟨hother, h⟩

/-- A task that does not send takes a role with no obligation to the map. A leader can only be
dropped. -/
theorem setTask (hs : Inv s) {task : Nat} {role : Role ρ}
    (hleader : (∃ h, s.tasks task = some (.leading h)) ∨ s.tasks task = some .dropped →
      role = .dropped)
    (hsending : ∀ channel result, s.tasks task ≠ some (.sending channel result))
    (hleading : ∀ h, role ≠ .leading h) (hsends : ∀ channel result, role ≠ .sending channel result)
    (hwaiting : ∀ channel seen, role = .waiting channel seen →
      seen = 0 ∧ (s.coalescer.inFlight.lookup channel.hash = some channel ∨
        ∃ result, s.results channel = some result))
    (hreceived : ∀ channel result, role = .received channel result →
      s.results channel = some result)
    (hlagged : ∀ channel, role ≠ .lagged channel) :
    Inv (s.setTask task role) where
  inFlight := by
    intro h channel hl
    obtain ⟨hhash, hnone, hrole⟩ := hs.inFlight h channel hl
    refine ⟨hhash, hnone, ?_⟩
    rw [tasks_setTask]
    split
    · rename_i heq
      rw [heq] at hrole
      rw [hleader (hrole.imp_left fun hlead => ⟨h, hlead⟩)]
      exact Or.inr rfl
    · exact hrole
  leading := by
    intro other h hl
    exact hs.leading other h (role_of_setTask hl (hleading h)).2
  sending := by
    intro other channel result hl
    exact hs.sending other channel result (role_of_setTask hl (hsends channel result)).2
  waiting := by
    intro other channel seen hl
    rw [tasks_setTask] at hl
    split at hl
    · exact hwaiting channel seen (Option.some.inj hl)
    · exact hs.waiting other channel seen hl
  received := by
    intro other channel result hl
    rw [tasks_setTask] at hl
    split at hl
    · exact hreceived channel result (Option.some.inj hl)
    · exact hs.received other channel result hl
  lagged := by
    intro other channel hl
    rw [tasks_setTask] at hl
    split at hl
    · exact hlagged channel (Option.some.inj hl)
    · exact hs.lagged other channel hl
  results := by
    intro channel result hr
    rcases hs.results channel result hr with hsent | ⟨hsent, hleader⟩
    · exact Or.inl hsent
    · exact Or.inr ⟨hsent, setTask_keeps hleader (hsending channel result)⟩
  unsent := hs.unsent
  fresh := fun channel hl => hs.fresh channel (none_of_setTask hl).2

theorem lead (hs : Inv s) {task : Nat} {h : QueryHash} (htask : s.tasks task = none)
    (hfree : s.coalescer.inFlight.lookup h = none) :
    Inv ({ s with coalescer := ⟨s.coalescer.inFlight.insert h ⟨h, task⟩⟩ }.setTask task
      (.leading h)) where
  inFlight := by
    intro h' channel hl
    by_cases hh : h' = h
    · subst hh
      obtain rfl : ⟨h', task⟩ = channel := by simpa [State.setTask] using hl
      exact ⟨rfl, hs.fresh ⟨h', task⟩ htask, by simp⟩
    · have hold : s.coalescer.inFlight.lookup h' = some channel := by
        simpa [State.setTask, AList.lookup_insert_ne hh] using hl
      obtain ⟨hhash, hnone, hleader⟩ := hs.inFlight h' channel hold
      exact ⟨hhash, hnone, hleader.imp (fun hlead => setTask_keeps hlead (by simp [htask]))
        fun hdropped => setTask_keeps hdropped (by simp [htask])⟩
  leading := by
    intro other h' hl
    rw [tasks_setTask] at hl
    split at hl
    · rename_i heq
      cases hl
      simp [State.setTask, heq]
    · have hold := hs.leading other h' hl
      have hh : h' ≠ h := by
        rintro rfl
        rw [hfree] at hold
        cases hold
      simpa [State.setTask, AList.lookup_insert_ne hh] using hold
  sending := by
    intro other channel result hl
    exact hs.sending other channel result (role_of_setTask hl (by simp)).2
  waiting := by
    intro other channel seen hl
    obtain ⟨hseen, hchannel⟩ := hs.waiting other channel seen (role_of_setTask hl (by simp)).2
    refine ⟨hseen, hchannel.imp_left fun hold => ?_⟩
    have hh : channel.hash ≠ h := by
      intro hh
      rw [hh, hfree] at hold
      cases hold
    simpa [State.setTask, AList.lookup_insert_ne hh] using hold
  received := by
    intro other channel result hl
    exact hs.received other channel result (role_of_setTask hl (by simp)).2
  lagged := by
    intro other channel hl
    exact hs.lagged other channel (role_of_setTask hl (by simp)).2
  results := by
    intro channel result hr
    rcases hs.results channel result hr with hsent | ⟨hsent, hleader⟩
    · exact Or.inl hsent
    · exact Or.inr ⟨hsent, setTask_keeps hleader (by simp [htask])⟩
  unsent := hs.unsent
  fresh := fun channel hl => hs.fresh channel (none_of_setTask hl).2

theorem getOrInsert (hs : Inv s) {task : Nat} (htask : s.tasks task = none) (h : QueryHash) :
    Inv (s.getOrInsert task h) := by
  unfold State.getOrInsert RequestCoalescer.getOrInsert
  cases hl : s.coalescer.inFlight.lookup h with
  | none => exact hs.lead htask hl
  | some channel =>
    obtain ⟨hhash, hnone, -⟩ := hs.inFlight h channel hl
    apply hs.setTask (by simp [htask]) (by simp [htask]) (by simp) (by simp)
    · intro channel' seen hrole
      cases hrole
      refine ⟨by simp [hs.unsent channel hnone], Or.inl ?_⟩
      rw [hhash]
      exact hl
    · simp
    · simp

theorem take_eq (hs : Inv s) {task : Nat} {h : QueryHash}
    (htask : s.tasks task = some (.leading h)) (result : ρ) :
    s.take task h result =
      { s with
        coalescer := ⟨s.coalescer.inFlight.erase h⟩
        results := Function.update s.results ⟨h, task⟩ (some result) }.setTask task
          (.sending ⟨h, task⟩ result) := by
  unfold State.take RequestCoalescer.take
  rw [hs.leading task h htask]

theorem take (hs : Inv s) {task : Nat} {h : QueryHash}
    (htask : s.tasks task = some (.leading h)) (result : ρ) : Inv (s.take task h result) := by
  have hl := hs.leading task h htask
  obtain ⟨-, hnone, -⟩ := hs.inFlight h _ hl
  have hother : ∀ channel : Channel, s.results channel ≠ none → channel ≠ ⟨h, task⟩ := by
    rintro channel hne rfl
    exact hne hnone
  rw [hs.take_eq htask]
  exact {
    inFlight := by
      intro h' channel hl'
      by_cases hh : h' = h
      · rw [hh] at hl'
        simp [State.setTask] at hl'
      · have hold : s.coalescer.inFlight.lookup h' = some channel := by
          simpa [State.setTask, AList.lookup_erase_ne hh] using hl'
        obtain ⟨hhash, hres, hleader⟩ := hs.inFlight h' channel hold
        have hne : channel ≠ ⟨h, task⟩ := by
          rintro rfl
          exact hh hhash.symm
        refine ⟨hhash, by simpa [State.setTask, Function.update_of_ne hne] using hres, ?_⟩
        exact hleader.imp (fun hlead => setTask_keeps hlead (by simp [htask, Ne.symm hh]))
          fun hdropped => setTask_keeps hdropped (by simp [htask])
    leading := by
      intro other h' hl'
      obtain ⟨hne, hrole⟩ := role_of_setTask hl' (by simp)
      have hold := hs.leading other h' hrole
      have hh : h' ≠ h := by
        rintro rfl
        rw [hl] at hold
        exact hne (by simpa using hold.symm)
      simpa [State.setTask, AList.lookup_erase_ne hh] using hold
    sending := by
      intro other channel r hl'
      rw [tasks_setTask] at hl'
      split at hl'
      · rename_i heq
        cases hl'
        exact ⟨heq.symm, hs.unsent _ hnone, by simp [State.setTask]⟩
      · obtain ⟨hlead, hsent, hres⟩ := hs.sending other channel r hl'
        have hne := hother channel (by simp [hres])
        exact ⟨hlead, hsent, by simpa [State.setTask, Function.update_of_ne hne] using hres⟩
    waiting := by
      intro other channel seen hl'
      obtain ⟨hseen, hchannel⟩ := hs.waiting other channel seen
        (role_of_setTask hl' (by simp)).2
      refine ⟨hseen, ?_⟩
      by_cases hc : channel = ⟨h, task⟩
      · exact Or.inr ⟨result, by simp [State.setTask, hc]⟩
      · rcases hchannel with hold | ⟨r, hr⟩
        · left
          have hh : channel.hash ≠ h := by
            intro hh
            rw [hh, hl] at hold
            exact hc (Option.some.inj hold).symm
          simpa [State.setTask, AList.lookup_erase_ne hh] using hold
        · exact Or.inr ⟨r, by simpa [State.setTask, Function.update_of_ne hc] using hr⟩
    received := by
      intro other channel r hl'
      have hres := hs.received other channel r (role_of_setTask hl' (by simp)).2
      have hne := hother channel (by simp [hres])
      simpa [State.setTask, Function.update_of_ne hne] using hres
    lagged := by
      intro other channel hl'
      exact hs.lagged other channel (role_of_setTask hl' (by simp)).2
    results := by
      intro channel r hr
      by_cases hc : channel = ⟨h, task⟩
      · subst hc
        obtain rfl : result = r := by simpa [State.setTask] using hr
        exact Or.inr ⟨hs.unsent _ hnone, by simp⟩
      · have hold : s.results channel = some r := by
          simpa [State.setTask, Function.update_of_ne hc] using hr
        rcases hs.results channel r hold with hsent | ⟨hsent, hleader⟩
        · exact Or.inl hsent
        · exact Or.inr ⟨hsent, setTask_keeps hleader (by simp [htask])⟩
    unsent := by
      intro channel hr
      by_cases hc : channel = ⟨h, task⟩
      · rw [hc]
        exact hs.unsent _ hnone
      · exact hs.unsent channel (by simpa [State.setTask, Function.update_of_ne hc] using hr)
    fresh := by
      intro channel hl'
      obtain ⟨hne, hfree⟩ := none_of_setTask hl'
      have hc : channel ≠ ⟨h, task⟩ := by
        rintro rfl
        exact hne rfl
      simpa [State.setTask, Function.update_of_ne hc] using hs.fresh channel hfree }

theorem send (hs : Inv s) {task : Nat} {channel : Channel} {result : ρ}
    (htask : s.tasks task = some (.sending channel result)) :
    Inv (s.send task channel result) := by
  obtain ⟨hleader, hsent, hresult⟩ := hs.sending task channel result htask
  unfold State.send
  exact {
    inFlight := by
      intro h channel' hl
      obtain ⟨hhash, hnone, hlead⟩ := hs.inFlight h channel' hl
      exact ⟨hhash, hnone, hlead.imp (fun hlead => setTask_keeps hlead (by simp [htask]))
        fun hdropped => setTask_keeps hdropped (by simp [htask])⟩
    leading := by
      intro other h hl
      exact hs.leading other h (role_of_setTask hl (by simp)).2
    sending := by
      intro other channel' r hl
      obtain ⟨hne, hrole⟩ := role_of_setTask hl (by simp)
      obtain ⟨hleader', hsent', hresult'⟩ := hs.sending other channel' r hrole
      have hc : channel' ≠ channel := by
        rintro rfl
        exact hne (hleader'.symm.trans hleader)
      exact ⟨hleader', by simpa [State.setTask, Function.update_of_ne hc] using hsent', hresult'⟩
    waiting := by
      intro other channel' seen hl
      exact hs.waiting other channel' seen (role_of_setTask hl (by simp)).2
    received := by
      intro other channel' r hl
      exact hs.received other channel' r (role_of_setTask hl (by simp)).2
    lagged := by
      intro other channel' hl
      exact hs.lagged other channel' (role_of_setTask hl (by simp)).2
    results := by
      intro channel' r hr
      by_cases hc : channel' = channel
      · subst hc
        obtain rfl : result = r := Option.some.inj (hresult.symm.trans hr)
        exact Or.inl (by simp [State.setTask, hsent])
      · rcases hs.results channel' r hr with hold | ⟨hold, hlead⟩
        · exact Or.inl (by simpa [State.setTask, Function.update_of_ne hc] using hold)
        · refine Or.inr ⟨by simpa [State.setTask, Function.update_of_ne hc] using hold, ?_⟩
          exact setTask_keeps hlead (by simp [htask, Ne.symm hc])
    unsent := by
      intro channel' hr
      have hc : channel' ≠ channel := by
        rintro rfl
        rw [show s.results channel' = none from hr] at hresult
        cases hresult
      simpa [State.setTask, Function.update_of_ne hc] using hs.unsent channel' hr
    fresh := fun channel' hl => hs.fresh channel' (none_of_setTask hl).2 }

/-- What a waiter finds on its channel: nothing yet, or the one result it was completed
with. -/
theorem inbox (hs : Inv s) {task : Nat} {receiver : Channel} {seen : Nat}
    (htask : s.tasks task = some (.waiting receiver seen)) :
    (s.sent receiver).drop seen = [] ∨
      ∃ result, s.results receiver = some result ∧ (s.sent receiver).drop seen = [result] := by
  obtain ⟨rfl, -⟩ := hs.waiting task receiver seen htask
  rw [List.drop_zero]
  cases hr : s.results receiver with
  | none => exact Or.inl (hs.unsent receiver hr)
  | some result =>
    rcases hs.results receiver result hr with hsent | ⟨hsent, -⟩
    · exact Or.inr ⟨result, rfl, hsent⟩
    · exact Or.inl hsent

theorem receive (hs : Inv s) {task : Nat} {receiver : Channel} {seen : Nat}
    (htask : s.tasks task = some (.waiting receiver seen)) :
    Inv (s.receive task receiver seen) := by
  unfold State.receive
  rcases hs.inbox htask with hempty | ⟨result, hresult, hone⟩
  · rw [hempty]
    exact hs
  · rw [hone]
    apply hs.setTask (by simp [htask]) (by simp [htask]) (by simp) (by simp) (by simp) _ (by simp)
    intro channel r hrole
    cases hrole
    exact hresult

theorem drop (hs : Inv s) {task : Nat} (hrole : (∃ h, s.tasks task = some (.leading h)) ∨
      ∃ receiver seen, s.tasks task = some (.waiting receiver seen)) :
    Inv (s.setTask task .dropped) := by
  apply hs.setTask (fun _ => rfl) _ (by simp) (by simp) (by simp) (by simp) (by simp)
  intro channel result hsending
  rcases hrole with ⟨h, htask⟩ | ⟨receiver, seen, htask⟩ <;> simp [htask] at hsending

theorem step (hs : Inv s) (e : Event ρ) : Inv (s.step e) := by
  cases e with
  | getOrInsert task h =>
    simp only [State.step]
    split
    · rename_i htask
      exact hs.getOrInsert htask h
    · exact hs
  | complete task result =>
    simp only [State.step]
    split
    · rename_i h htask
      exact hs.take htask result
    · exact hs
  | send task =>
    simp only [State.step]
    split
    · rename_i channel result htask
      exact hs.send htask
    · exact hs
  | receive task =>
    simp only [State.step]
    split
    · rename_i receiver seen htask
      exact hs.receive htask
    · exact hs
  | drop task =>
    simp only [State.step]
    split
    · rename_i h htask
      exact hs.drop (Or.inl ⟨h, htask⟩)
    · rename_i receiver seen htask
      exact hs.drop (Or.inr ⟨receiver, seen, htask⟩)
    · exact hs

end Inv

theorem inv_run (events : List (Event ρ)) : Inv (run State.step init events) :=
  run_preserves (fun _ e hs => hs.step e) inv_init events

/-! ## Leaders of the keys in flight -/

/-- Every key in the map has a leader that is still running. -/
def Led (s : State ρ) : Prop :=
  ∀ h channel, s.coalescer.inFlight.lookup h = some channel →
    s.tasks channel.leader = some (.leading h)

theorem led_setTask {s : State ρ} (hs : Inv s) {task : Nat} {role : Role ρ}
    (hleading : ∀ h, s.tasks task ≠ some (.leading h)) (hdropped : s.tasks task ≠ some .dropped) :
    Led (s.setTask task role) ↔ Led s := by
  have hother : ∀ h channel, s.coalescer.inFlight.lookup h = some channel →
      (s.setTask task role).tasks channel.leader = s.tasks channel.leader := by
    intro h channel hl
    rw [Inv.tasks_setTask, if_neg]
    intro heq
    rcases (hs.inFlight h channel hl).2.2 with hlead | hdrop
    · exact hleading h (heq ▸ hlead)
    · exact hdropped (heq ▸ hdrop)
  constructor
  · intro hled h channel hl
    rw [← hother h channel hl]
    exact hled h channel hl
  · intro hled h channel hl
    rw [hother h channel hl]
    exact hled h channel hl

theorem led_lead {s : State ρ} (hs : Inv s) {task : Nat} {h : QueryHash}
    (htask : s.tasks task = none) (hfree : s.coalescer.inFlight.lookup h = none) :
    Led ({ s with coalescer := ⟨s.coalescer.inFlight.insert h ⟨h, task⟩⟩ }.setTask task
      (.leading h)) ↔ Led s := by
  have hnew : ∀ h' channel, s.coalescer.inFlight.lookup h' = some channel →
      h' ≠ h ∧ channel.leader ≠ task := by
    intro h' channel hl
    constructor
    · rintro rfl
      rw [hfree] at hl
      cases hl
    · intro heq
      have hrole := (hs.inFlight h' channel hl).2.2
      rw [heq, htask] at hrole
      simp at hrole
  constructor
  · intro hled h' channel hl
    obtain ⟨hh, hleader⟩ := hnew h' channel hl
    have hrole := hled h' channel (by simpa [State.setTask, AList.lookup_insert_ne hh] using hl)
    rwa [Inv.tasks_setTask, if_neg hleader] at hrole
  · intro hled h' channel hl
    rw [Inv.tasks_setTask]
    by_cases hh : h' = h
    · subst hh
      obtain rfl : ⟨h', task⟩ = channel := by simpa [State.setTask] using hl
      simp
    · have hold : s.coalescer.inFlight.lookup h' = some channel := by
        simpa [State.setTask, AList.lookup_insert_ne hh] using hl
      rw [if_neg (hnew h' channel hold).2]
      exact hled h' channel hold

theorem led_take {s : State ρ} (hs : Inv s) {task : Nat} {h : QueryHash}
    (htask : s.tasks task = some (.leading h)) (result : ρ) :
    Led (s.take task h result) ↔ Led s := by
  have hl := hs.leading task h htask
  have hrest : ∀ h' channel, h' ≠ h → s.coalescer.inFlight.lookup h' = some channel →
      channel.leader ≠ task := by
    intro h' channel hh hl' heq
    have hrole := (hs.inFlight h' channel hl').2.2
    rw [heq, htask] at hrole
    simp only [Option.some.injEq, Role.leading.injEq, reduceCtorEq, or_false] at hrole
    exact hh hrole.symm
  rw [hs.take_eq htask]
  constructor
  · intro hled h' channel hl'
    by_cases hh : h' = h
    · subst hh
      rw [hl] at hl'
      cases hl'
      exact htask
    · have hrole := hled h' channel (by simpa [State.setTask, AList.lookup_erase_ne hh] using hl')
      rwa [Inv.tasks_setTask, if_neg (hrest h' channel hh hl')] at hrole
  · intro hled h' channel hl'
    by_cases hh : h' = h
    · rw [hh] at hl'
      simp [State.setTask] at hl'
    · have hold : s.coalescer.inFlight.lookup h' = some channel := by
        simpa [State.setTask, AList.lookup_erase_ne hh] using hl'
      rw [Inv.tasks_setTask, if_neg (hrest h' channel hh hold)]
      exact hled h' channel hold

theorem not_led_dropLeader {s : State ρ} (hs : Inv s) {task : Nat} {h : QueryHash}
    (htask : s.tasks task = some (.leading h)) : ¬ Led (s.setTask task .dropped) := by
  intro hled
  have hrole := hled h ⟨h, task⟩ (hs.leading task h htask)
  simp at hrole

/-- A step keeps every key led unless it drops a leader, and then the key stays without one. -/
theorem led_step_iff {s : State ρ} (hs : Inv s) (e : Event ρ) :
    Led (s.step e) ↔ Led s ∧ dropsLeader s e = false := by
  cases e with
  | getOrInsert task h =>
    simp only [State.step, dropsLeader, and_true]
    split
    · rename_i htask
      unfold State.getOrInsert RequestCoalescer.getOrInsert
      cases hl : s.coalescer.inFlight.lookup h with
      | none => exact led_lead hs htask hl
      | some channel => exact led_setTask hs (by simp [htask]) (by simp [htask])
    · rfl
  | complete task result =>
    simp only [State.step, dropsLeader, and_true]
    split
    · rename_i h htask
      exact led_take hs htask result
    · rfl
  | send task =>
    simp only [State.step, dropsLeader, and_true]
    split
    · rename_i channel result htask
      exact led_setTask hs (by simp [htask]) (by simp [htask])
    · rfl
  | receive task =>
    simp only [State.step, dropsLeader, and_true]
    split
    · rename_i receiver seen htask
      unfold State.receive
      split
      · rfl
      · exact led_setTask hs (by simp [htask]) (by simp [htask])
      · exact led_setTask hs (by simp [htask]) (by simp [htask])
    · rfl
  | drop task =>
    simp only [State.step, dropsLeader]
    split
    · rename_i h htask
      simp [htask, not_led_dropLeader hs htask]
    · rename_i receiver seen htask
      simp only [htask, and_true]
      exact led_setTask hs (by simp [htask]) (by simp [htask])
    · rename_i hleading hwaiting
      split
      · rename_i h htask
        exact absurd htask (hleading h)
      · simp

theorem led_run_iff (events : List (Event ρ)) (s : State ρ) (hs : Inv s) :
    Led (run State.step s events) ↔
      Led s ∧ AllSteps State.step (fun s e => dropsLeader s e = false) s events := by
  induction events generalizing s with
  | nil => simp [AllSteps]
  | cons e rest ih =>
    rw [run_cons, ih (s.step e) (hs.step e), led_step_iff hs e]
    simp only [AllSteps, and_assoc]

theorem sent_after_send {s : State ρ} (hs : Inv s) {channel : Channel} {result : ρ}
    (hresult : s.results channel = some result) :
    (s.step (.send channel.leader)).sent channel = [result] := by
  simp only [State.step]
  rcases hs.results channel result hresult with hsent | ⟨hsent, hleader⟩
  · split
    · rename_i channel' r htask
      have hne : channel ≠ channel' := by
        rintro rfl
        rw [(hs.sending _ _ _ htask).2.1] at hsent
        cases hsent
      simpa [State.send, State.setTask, Function.update_of_ne hne] using hsent
    · exact hsent
  · rw [hleader]
    simp [State.send, State.setTask, hsent]

theorem waiting_after_send {s : State ρ} (leader : Nat) {task : Nat} {channel : Channel}
    {seen : Nat} (htask : s.tasks task = some (.waiting channel seen)) :
    (s.step (.send leader)).tasks task = some (.waiting channel seen) := by
  simp only [State.step]
  split
  · rename_i channel' r hleader
    have hne : task ≠ leader := by
      rintro rfl
      rw [htask] at hleader
      cases hleader
    simp [State.send, hne, htask]
  · exact htask

theorem receives {s : State ρ} (hs : Inv s) {task : Nat} {channel : Channel} {seen : Nat}
    {result : ρ} (hresult : s.results channel = some result)
    (htask : s.tasks task = some (.waiting channel seen)) :
    ((s.step (.send channel.leader)).step (.receive task)).tasks task =
      some (.received channel result) := by
  obtain ⟨rfl, -⟩ := hs.waiting task channel seen htask
  have hwaits := waiting_after_send channel.leader htask
  have hsent := sent_after_send hs hresult
  generalize s.step (.send channel.leader) = s' at hwaits hsent
  simp [State.step, hwaits, State.receive, hsent]

end Coalescing

end Conproxy
