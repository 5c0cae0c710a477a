import Conproxy.Lib.Progress
import Conproxy.SmartEmbedder

/-!
# Coalescing in the embedder

`get_or_insert_coalesce` and `embed` of `smart_embedder.rs` for calls that run at the same time, in
their smallest steps. A call can only be dropped where it awaits: as a leader while the provider
computes, as a waiter while nothing was sent. The map keeps a sender of its own, so a channel is
closed once it is out of the map and its leader is gone.
-/

namespace Conproxy

open Machine

set_option autoImplicit false

/-- A broadcast channel, named by its key and by the call that created it. -/
structure EmbedChannel where
  hash : UInt64
  leader : Nat
deriving DecidableEq

/-- Where a call of `embed` is. A waiter keeps how many messages its channel had seen when it
subscribed. -/
inductive EmbedPhase where
  | missed (text : String)
  | unlisted (text : String)
  | leading (text : String) (channel : EmbedChannel)
  | computed (text : String) (channel : EmbedChannel) (result : Except String Embedding)
  | removed (text : String) (channel : EmbedChannel) (result : Except String Embedding)
  | sent (text : String) (channel : EmbedChannel) (vector : Embedding)
  | waiting (channel : EmbedChannel) (seen : Nat)
  | ended (result : Except String Embedding)
  | answered (channel : EmbedChannel) (result : Except String Embedding)
  | dropped
deriving DecidableEq

namespace EmbedPhase

/-- The channel whose sender the call itself holds. -/
def sender : EmbedPhase → Option EmbedChannel
  | leading _ channel | computed _ channel _ | removed _ channel _ | sent _ channel _ =>
    some channel
  | _ => none

/-- The channel that the call leads and has not yet taken out of the map. -/
def leads : EmbedPhase → Option EmbedChannel
  | leading _ channel | computed _ channel _ => some channel
  | _ => none

/-- How many steps the call has still to take at most. -/
def rank : EmbedPhase → Nat
  | missed _ => 6
  | unlisted _ => 5
  | leading _ _ => 4
  | computed _ _ _ => 3
  | removed _ _ _ => 2
  | sent _ _ _ | waiting _ _ => 1
  | ended _ | answered _ _ | dropped => 0

/-- The call has neither returned nor been dropped. -/
def Outstanding (phase : EmbedPhase) : Prop := 0 < phase.rank

instance (phase : EmbedPhase) : Decidable phase.Outstanding := Nat.decLt 0 phase.rank

end EmbedPhase

/-- The message of a waiter whose channel was closed. -/
def coalescedFailed : String := "Coalesced request failed"

/-- `answers` records what the leader of each channel computed. -/
structure EmbedderState where
  cache : EmbeddingCache
  inFlight : AList fun _ : UInt64 => EmbedChannel
  calls : List EmbedPhase
  sent : EmbedChannel → List Embedding
  answers : EmbedChannel → Option (Except String Embedding)

inductive EmbedEvent where
  | call (text : String) (now : Nat)
  | get (call : Nat)
  | entry (call : Nat)
  | compute (call : Nat) (answer : Except String Embedding)
  | remove (call : Nat)
  | send (call : Nat)
  | store (call : Nat) (scan : AgeScan) (storedAt : Nat)
  | recv (call : Nat)
  | drop (call : Nat)

/-- A step that a call takes by itself: calls are started and dropped from outside. -/
def EmbedEvent.Own : EmbedEvent → Prop
  | .call _ _ | .drop _ => False
  | _ => True

namespace EmbedderState

def init (cache : EmbeddingCache) : EmbedderState := ⟨cache, ∅, [], fun _ => [], fun _ => none⟩

def setCall (s : EmbedderState) (call : Nat) (phase : EmbedPhase) : EmbedderState :=
  { s with calls := s.calls.set call phase }

def subscribe (s : EmbedderState) (call : Nat) (channel : EmbedChannel) : EmbedderState :=
  s.setCall call (.waiting channel (s.sent channel).length)

def hasSender (s : EmbedderState) (channel : EmbedChannel) : Bool :=
  s.inFlight.entries.any (fun e => e.2 = channel) ||
    s.calls.any fun phase => phase.sender = some channel

/-- What `recv` returns, if it returns. A receiver that missed a message of the one-slot buffer is
told that it lagged. -/
def received (s : EmbedderState) (channel : EmbedChannel) (seen : Nat) :
    Option (Except String Embedding) :=
  match (s.sent channel).drop seen with
  | [vector] => some (.ok vector)
  | _ :: _ :: _ => some (.error coalescedFailed)
  | [] => if s.hasSender channel then none else some (.error coalescedFailed)

def recv (s : EmbedderState) (call : Nat) (channel : EmbedChannel) (seen : Nat) : EmbedderState :=
  match s.received channel seen with
  | some result => s.setCall call (.answered channel result)
  | none => s

def compute (s : EmbedderState) (call : Nat) (text : String) (channel : EmbedChannel)
    (answer : Except String Embedding) : EmbedderState :=
  { s with answers := Function.update s.answers channel (some answer) }.setCall call
    (.computed text channel answer)

/-- The vector is broadcast. After an error the sender goes with the call. -/
def send (s : EmbedderState) (call : Nat) (text : String) (channel : EmbedChannel) :
    Except String Embedding → EmbedderState
  | .ok vector =>
    { s with sent := Function.update s.sent channel (s.sent channel ++ [vector]) }.setCall call
      (.sent text channel vector)
  | .error e => s.setCall call (.ended (.error e))

section Steps

variable (m : SmartEmbedder)

def begin (s : EmbedderState) (text : String) (now : Nat) : EmbedderState :=
  match m.cached s.cache now text with
  | some vector => { s with calls := s.calls ++ [.ended (.ok vector)] }
  | none => { s with calls := s.calls ++ [.missed text] }

/-- `get_or_insert_coalesce` looks into the map first. -/
def get (s : EmbedderState) (call : Nat) (text : String) : EmbedderState :=
  match s.inFlight.lookup (m.cacheKey text) with
  | some channel => s.subscribe call channel
  | none => s.setCall call (.unlisted text)

/-- By then another call can have been faster. -/
def entry (s : EmbedderState) (call : Nat) (text : String) : EmbedderState :=
  match s.inFlight.lookup (m.cacheKey text) with
  | some channel => s.subscribe call channel
  | none =>
    { s with inFlight := s.inFlight.insert (m.cacheKey text) ⟨m.cacheKey text, call⟩ }.setCall call
      (.leading text ⟨m.cacheKey text, call⟩)

def remove (s : EmbedderState) (call : Nat) (text : String) (channel : EmbedChannel)
    (result : Except String Embedding) : EmbedderState :=
  { s with inFlight := s.inFlight.erase (m.cacheKey text) }.setCall call
    (.removed text channel result)

def store (s : EmbedderState) (call : Nat) (text : String) (vector : Embedding) (scan : AgeScan)
    (storedAt : Nat) : EmbedderState :=
  { s with
    cache :=
      if 0 < m.config.cacheMaxEntries then
        m.remember (m.maybeEvict scan s.cache) storedAt text vector
      else s.cache }.setCall call (.ended (.ok vector))

def step (s : EmbedderState) : EmbedEvent → EmbedderState
  | .call text now => s.begin m text now
  | .get call =>
    match s.calls[call]? with
    | some (.missed text) => s.get m call text
    | _ => s
  | .entry call =>
    match s.calls[call]? with
    | some (.unlisted text) => s.entry m call text
    | _ => s
  | .compute call answer =>
    match s.calls[call]? with
    | some (.leading text channel) => s.compute call text channel answer
    | _ => s
  | .remove call =>
    match s.calls[call]? with
    | some (.computed text channel result) => s.remove m call text channel result
    | _ => s
  | .send call =>
    match s.calls[call]? with
    | some (.removed text channel result) => s.send call text channel result
    | _ => s
  | .store call scan storedAt =>
    match s.calls[call]? with
    | some (.sent text _ vector) => s.store m call text vector scan storedAt
    | _ => s
  | .recv call =>
    match s.calls[call]? with
    | some (.waiting channel seen) => s.recv call channel seen
    | _ => s
  | .drop call =>
    match s.calls[call]? with
    | some (.leading _ _) | some (.waiting _ _) => s.setCall call .dropped
    | _ => s

end Steps

/-- The step drops a leader whose provider still computes. -/
def DropsLeader (s : EmbedderState) : EmbedEvent → Prop
  | .drop call => ∃ text channel, s.calls[call]? = some (.leading text channel)
  | _ => False

/-- A running call holds the key of every channel in the map. -/
def Led (s : EmbedderState) : Prop :=
  ∀ hash channel, s.inFlight.lookup hash = some channel →
    ∃ phase, s.calls[channel.leader]? = some phase ∧ phase.leads = some channel

def FromLeader (s : EmbedderState) (channel : EmbedChannel) (result : Except String Embedding) :
    Prop :=
  result = .error coalescedFailed ∨
    ∃ vector, result = .ok vector ∧ s.answers channel = some (.ok vector)

/-- No key is left without a leader, no waiter without a leader or a result. -/
structure NeverStrands (s : EmbedderState) : Prop where
  led : s.Led
  waits : ∀ (call : Nat) channel seen, s.calls[call]? = some (.waiting channel seen) →
    (∃ result, s.received channel seen = some result ∧ s.FromLeader channel result) ∨
      s.received channel seen = none ∧
        ∃ phase, s.calls[channel.leader]? = some phase ∧ phase.sender = some channel
  answered : ∀ (call : Nat) channel result, s.calls[call]? = some (.answered channel result) →
    s.FromLeader channel result
  quiet : (∀ phase ∈ s.calls, ¬ phase.Outstanding) → s.inFlight = ∅

/-- A call that is there goes on by itself. -/
def Advances (m : SmartEmbedder) (s : EmbedderState) (e : EmbedEvent) : Prop :=
  e.Own ∧ (s.step m e).calls ≠ s.calls

def work (s : EmbedderState) : Nat := remaining EmbedPhase.rank s.calls

/-- What a step does if it does anything. -/
inductive Moves (m : SmartEmbedder) (s : EmbedderState) : EmbedEvent → EmbedderState → Prop
  | hit {text now vector} : m.cached s.cache now text = some vector →
      Moves m s (.call text now) { s with calls := s.calls ++ [.ended (.ok vector)] }
  | miss {text now} : m.cached s.cache now text = none →
      Moves m s (.call text now) { s with calls := s.calls ++ [.missed text] }
  | subscribe {e call text hash channel} :
      s.calls[call]? = some (.missed text) ∨ s.calls[call]? = some (.unlisted text) →
      s.inFlight.lookup hash = some channel → e = .get call ∨ e = .entry call →
      Moves m s e (s.subscribe call channel)
  | unlist {call text} : s.calls[call]? = some (.missed text) →
      Moves m s (.get call) (s.setCall call (.unlisted text))
  | lead {call text} : s.calls[call]? = some (.unlisted text) →
      s.inFlight.lookup (m.cacheKey text) = none →
      Moves m s (.entry call)
        ({ s with
          inFlight := s.inFlight.insert (m.cacheKey text) ⟨m.cacheKey text, call⟩ }.setCall call
          (.leading text ⟨m.cacheKey text, call⟩))
  | compute {call text channel answer} : s.calls[call]? = some (.leading text channel) →
      Moves m s (.compute call answer) (s.compute call text channel answer)
  | remove {call text channel result} : s.calls[call]? = some (.computed text channel result) →
      Moves m s (.remove call) (s.remove m call text channel result)
  | send {call text channel result} : s.calls[call]? = some (.removed text channel result) →
      Moves m s (.send call) (s.send call text channel result)
  | store {call text channel vector scan storedAt} :
      s.calls[call]? = some (.sent text channel vector) →
      Moves m s (.store call scan storedAt) (s.store m call text vector scan storedAt)
  | recv {call channel seen result} : s.calls[call]? = some (.waiting channel seen) →
      s.received channel seen = some result →
      Moves m s (.recv call) (s.setCall call (.answered channel result))
  | dropLeader {call text channel} : s.calls[call]? = some (.leading text channel) →
      Moves m s (.drop call) (s.setCall call .dropped)
  | dropWaiter {call channel seen} : s.calls[call]? = some (.waiting channel seen) →
      Moves m s (.drop call) (s.setCall call .dropped)

/-! ## The invariant -/

def PhaseOk (m : SmartEmbedder) (s : EmbedderState) (call : Nat) : EmbedPhase → Prop
  | .leading text channel =>
    channel = ⟨m.cacheKey text, call⟩ ∧ s.inFlight.lookup channel.hash = some channel
  | .computed text channel result =>
    channel = ⟨m.cacheKey text, call⟩ ∧ s.inFlight.lookup channel.hash = some channel ∧
      s.answers channel = some result
  | .removed text channel result =>
    channel = ⟨m.cacheKey text, call⟩ ∧ s.answers channel = some result
  | .sent text channel vector =>
    channel = ⟨m.cacheKey text, call⟩ ∧ s.sent channel = [vector]
  | .waiting _ seen => seen = 0
  | .answered channel result =>
    result = .error coalescedFailed ∨ ∃ vector, result = .ok vector ∧ s.sent channel = [vector]
  | _ => True

/-- A channel in the map belongs to a leader that computes or was dropped. A channel carries at
most one message, which its leader computed and has sent. -/
structure Inv (m : SmartEmbedder) (s : EmbedderState) : Prop where
  phases : ∀ (call : Nat) phase, s.calls[call]? = some phase → PhaseOk m s call phase
  listed : ∀ hash channel, s.inFlight.lookup hash = some channel → channel.hash = hash ∧
    ∃ phase, s.calls[channel.leader]? = some phase ∧
      (phase.leads = some channel ∨ phase = .dropped)
  sent : ∀ channel, s.sent channel = [] ∨ ∃ vector, s.sent channel = [vector] ∧
    s.answers channel = some (.ok vector) ∧
      ((∃ text, s.calls[channel.leader]? = some (.sent text channel vector)) ∨
        s.calls[channel.leader]? = some (.ended (.ok vector)))

variable {m : SmartEmbedder} {s s' : EmbedderState} {e : EmbedEvent}

theorem inv_init (cache : EmbeddingCache) : Inv m (init cache) where
  phases call phase h := by simp [init] at h
  listed hash channel h := by simp [init] at h
  sent channel := .inl rfl

theorem calls_setCall {call other : Nat} {phase phase' : EmbedPhase}
    (h : (s.setCall call phase).calls[other]? = some phase') :
    other = call ∧ phase' = phase ∨ other ≠ call ∧ s.calls[other]? = some phase' := by
  simp only [setCall, List.getElem?_set] at h
  split at h
  · rename_i heq
    split at h
    · exact .inl ⟨heq.symm, (Option.some.inj h).symm⟩
    · cases h
  · rename_i hne
    exact .inr ⟨Ne.symm hne, h⟩

theorem setCall_self {call : Nat} {phase : EmbedPhase} (h : s.calls[call]? = some phase)
    (phase' : EmbedPhase) : (s.setCall call phase').calls[call]? = some phase' := by
  have hlt : call < s.calls.length := (List.getElem?_eq_some_iff.1 h).1
  simp [setCall, hlt]

theorem setCall_other {call other : Nat} (hne : other ≠ call) (phase : EmbedPhase) :
    (s.setCall call phase).calls[other]? = s.calls[other]? := by
  simp [setCall, Ne.symm hne]

theorem moves_step (m : SmartEmbedder) (s : EmbedderState) (e : EmbedEvent) :
    s.step m e = s ∨ Moves m s e (s.step m e) := by
  cases e with
  | call text now =>
    right
    show Moves m s _ (s.begin m text now)
    unfold begin
    split
    · rename_i hcached
      exact .hit hcached
    · rename_i hcached
      exact .miss hcached
  | get call =>
    simp only [step]
    split
    · rename_i text hcall
      right
      unfold get
      split
      · rename_i hlisted
        exact .subscribe (.inl hcall) hlisted (.inl rfl)
      · exact .unlist hcall
    · exact .inl rfl
  | entry call =>
    simp only [step]
    split
    · rename_i text hcall
      right
      unfold entry
      split
      · rename_i hlisted
        exact .subscribe (.inr hcall) hlisted (.inr rfl)
      · rename_i hfree
        exact .lead hcall hfree
    · exact .inl rfl
  | compute call answer =>
    simp only [step]
    split
    · rename_i hcall
      exact .inr (.compute hcall)
    · exact .inl rfl
  | remove call =>
    simp only [step]
    split
    · rename_i hcall
      exact .inr (.remove hcall)
    · exact .inl rfl
  | send call =>
    simp only [step]
    split
    · rename_i hcall
      exact .inr (.send hcall)
    · exact .inl rfl
  | store call scan storedAt =>
    simp only [step]
    split
    · rename_i hcall
      exact .inr (.store hcall)
    · exact .inl rfl
  | recv call =>
    simp only [step]
    split
    · rename_i channel seen hcall
      unfold recv
      split
      · rename_i result hresult
        exact .inr (.recv hcall hresult)
      · exact .inl rfl
    · exact .inl rfl
  | drop call =>
    simp only [step]
    split
    · rename_i hcall
      exact .inr (.dropLeader hcall)
    · rename_i hcall
      exact .inr (.dropWaiter hcall)
    · exact .inl rfl

/-- A call goes to another phase, and nothing else changes for the channels of other calls. -/
theorem Inv.set (hs : Inv m s) {call : Nat} {phase phase' : EmbedPhase}
    (hcall : s.calls[call]? = some phase) (hcalls : s'.calls = (s.setCall call phase').calls)
    (hkeep : ∀ channel, channel.leader ≠ call →
      s.inFlight.lookup channel.hash = some channel →
        s'.inFlight.lookup channel.hash = some channel)
    (hlisted : ∀ hash channel, channel.leader ≠ call →
      s'.inFlight.lookup hash = some channel → s.inFlight.lookup hash = some channel)
    (hother : ∀ channel, channel.leader ≠ call →
      s'.sent channel = s.sent channel ∧ s'.answers channel = s.answers channel)
    (hmessage : ∀ channel vector, s.sent channel = [vector] → s'.sent channel = [vector])
    (hphase : PhaseOk m s' call phase')
    (hown : ∀ hash channel, channel.leader = call → s'.inFlight.lookup hash = some channel →
      channel.hash = hash ∧ (phase'.leads = some channel ∨ phase' = .dropped))
    (hsent : ∀ channel, channel.leader = call → s'.sent channel = [] ∨
      ∃ vector, s'.sent channel = [vector] ∧ s'.answers channel = some (.ok vector) ∧
        ((∃ text, phase' = .sent text channel vector) ∨ phase' = .ended (.ok vector))) :
    Inv m s' where
  phases other phase'' h := by
    rw [hcalls] at h
    rcases calls_setCall h with ⟨rfl, rfl⟩ | ⟨hne, hold⟩
    · exact hphase
    · have hok := hs.phases other phase'' hold
      cases phase'' with
      | leading text channel =>
        obtain ⟨rfl, hin⟩ := hok
        exact ⟨rfl, hkeep _ hne hin⟩
      | computed text channel result =>
        obtain ⟨rfl, hin, hanswer⟩ := hok
        exact ⟨rfl, hkeep _ hne hin, (hother ⟨m.cacheKey text, other⟩ hne).2.trans hanswer⟩
      | removed text channel result =>
        obtain ⟨rfl, hanswer⟩ := hok
        exact ⟨rfl, (hother ⟨m.cacheKey text, other⟩ hne).2.trans hanswer⟩
      | sent text channel vector => exact ⟨hok.1, hmessage _ _ hok.2⟩
      | answered channel result =>
        rcases hok with herror | ⟨vector, hvector, hin⟩
        · exact .inl herror
        · exact .inr ⟨vector, hvector, hmessage _ _ hin⟩
      | waiting channel seen => exact hok
      | missed text => trivial
      | unlisted text => trivial
      | ended result => trivial
      | dropped => trivial
  listed hash channel h := by
    rw [hcalls]
    by_cases hleader : channel.leader = call
    · obtain ⟨hhash, hrole⟩ := hown hash channel hleader h
      rw [hleader]
      exact ⟨hhash, phase', setCall_self hcall phase', hrole⟩
    · rw [setCall_other hleader]
      exact hs.listed hash channel (hlisted hash channel hleader h)
  sent channel := by
    rw [hcalls]
    by_cases hleader : channel.leader = call
    · rw [hleader, setCall_self hcall]
      rcases hsent channel hleader with hnone | ⟨vector, hvector, hanswer, hrole⟩
      · exact .inl hnone
      · refine .inr ⟨vector, hvector, hanswer, ?_⟩
        rcases hrole with ⟨text, rfl⟩ | rfl
        · exact .inl ⟨text, rfl⟩
        · exact .inr rfl
    · rw [setCall_other hleader, (hother channel hleader).1, (hother channel hleader).2]
      exact hs.sent channel

/-- A call goes to another phase and nothing else changes. -/
theorem Inv.setCall (hs : Inv m s) {call : Nat} {phase phase' : EmbedPhase}
    (hcall : s.calls[call]? = some phase) (hphase : PhaseOk m s call phase')
    (hlive : phase.Outstanding)
    (hleads : ∀ channel, phase.leads = some channel →
      phase'.leads = some channel ∨ phase' = .dropped)
    (hsent : ∀ text channel vector, phase = .sent text channel vector →
      phase' = .ended (.ok vector)) : Inv m (s.setCall call phase') := by
  apply hs.set hcall rfl (fun _ _ h => h) (fun _ _ _ h => h) (fun _ _ => ⟨rfl, rfl⟩)
    (fun _ _ h => h)
  · cases phase' <;> exact hphase
  · rintro hash channel rfl hin
    obtain ⟨hhash, phase₀, hphase₀, hrole⟩ := hs.listed hash channel hin
    obtain rfl : phase₀ = phase := Option.some.inj (hphase₀.symm.trans hcall)
    refine ⟨hhash, ?_⟩
    rcases hrole with hrole | rfl
    · exact hleads channel hrole
    · exact absurd hlive (Nat.lt_irrefl 0)
  · rintro channel rfl
    rcases hs.sent channel with hnone | ⟨vector, hvector, hanswer, hrole⟩
    · exact .inl hnone
    · refine .inr ⟨vector, hvector, hanswer, .inr ?_⟩
      rw [hcall] at hrole
      rcases hrole with ⟨text, hrole⟩ | hrole
      · exact hsent text channel vector (Option.some.inj hrole)
      · rw [Option.some.inj hrole] at hlive
        exact absurd hlive (Nat.lt_irrefl 0)

theorem Inv.sent_eq_nil (hs : Inv m s) {channel : EmbedChannel} {phase : EmbedPhase}
    (hleader : s.calls[channel.leader]? = some phase)
    (hsent : ∀ text vector, phase ≠ .sent text channel vector)
    (hended : ∀ result, phase ≠ .ended result) : s.sent channel = [] := by
  rcases hs.sent channel with hnone | ⟨vector, _, _, ⟨text, hrole⟩ | hrole⟩
  · exact hnone
  · exact absurd (Option.some.inj (hleader.symm.trans hrole)) (hsent text vector)
  · exact absurd (Option.some.inj (hleader.symm.trans hrole)) (hended _)

theorem Inv.sent_of_listed (hs : Inv m s) {hash : UInt64} {channel : EmbedChannel}
    (h : s.inFlight.lookup hash = some channel) : s.sent channel = [] := by
  obtain ⟨_, phase, hleader, hrole⟩ := (hs.listed hash channel h)
  apply hs.sent_eq_nil hleader
  · rintro text vector rfl
    rcases hrole with hrole | hrole <;> cases hrole
  · rintro result rfl
    rcases hrole with hrole | hrole <;> cases hrole

theorem Inv.leads_of_listed (hs : Inv m s) {hash : UInt64} {channel : EmbedChannel}
    {phase : EmbedPhase} (h : s.inFlight.lookup hash = some channel)
    (hleader : s.calls[channel.leader]? = some phase) (hlive : phase ≠ .dropped) :
    channel.hash = hash ∧ phase.leads = some channel := by
  obtain ⟨hhash, phase₀, hphase₀, hrole⟩ := hs.listed hash channel h
  obtain rfl : phase₀ = phase := Option.some.inj (hphase₀.symm.trans hleader)
  exact ⟨hhash, hrole.resolve_right hlive⟩

theorem Inv.received (hs : Inv m s) {channel : EmbedChannel} {result : Except String Embedding}
    (h : s.received channel 0 = some result) :
    result = .error coalescedFailed ∨
      ∃ vector, result = .ok vector ∧ s.sent channel = [vector] := by
  unfold EmbedderState.received at h
  rcases hs.sent channel with hnone | ⟨vector, hvector, _⟩
  · rw [hnone] at h
    simp only [List.drop_nil] at h
    split at h
    · cases h
    · exact .inl (Option.some.inj h).symm
  · rw [hvector] at h
    exact .inr ⟨vector, (Option.some.inj h).symm, hvector⟩

theorem getElem?_concat {α : Type} {l : List α} {a b : α} {i : Nat}
    (h : (l ++ [a])[i]? = some b) : l[i]? = some b ∨ i = l.length ∧ b = a := by
  rcases Nat.lt_trichotomy i l.length with hlt | heq | hgt
  · rw [List.getElem?_append_left hlt] at h
    exact .inl h
  · subst heq
    rw [List.getElem?_concat_length] at h
    exact .inr ⟨rfl, (Option.some.inj h).symm⟩
  · rw [List.getElem?_eq_none (by simp; omega)] at h
    cases h

theorem getElem?_concat_of_some {α : Type} {l : List α} {b : α} {i : Nat} (h : l[i]? = some b)
    (a : α) : (l ++ [a])[i]? = some b := by
  rw [List.getElem?_append_left (List.getElem?_eq_some_iff.1 h).1, h]

theorem Inv.concat (hs : Inv m s) {phase : EmbedPhase} (hphase : ∀ call, PhaseOk m s call phase) :
    Inv m { s with calls := s.calls ++ [phase] } where
  phases call phase' h := by
    have hok : PhaseOk m s call phase' := by
      rcases getElem?_concat h with hold | ⟨_, rfl⟩
      · exact hs.phases call phase' hold
      · exact hphase call
    cases phase' <;> exact hok
  listed hash channel h := by
    obtain ⟨hhash, phase', hleader, hrole⟩ := hs.listed hash channel h
    exact ⟨hhash, phase', getElem?_concat_of_some hleader phase, hrole⟩
  sent channel := by
    rcases hs.sent channel with hnone | ⟨vector, hvector, hanswer, hrole⟩
    · exact .inl hnone
    · refine .inr ⟨vector, hvector, hanswer, ?_⟩
      rcases hrole with ⟨text, hrole⟩ | hrole
      · exact .inl ⟨text, getElem?_concat_of_some hrole phase⟩
      · exact .inr (getElem?_concat_of_some hrole phase)

theorem inv_lead (hs : Inv m s) {call : Nat} {text : String}
    (hcall : s.calls[call]? = some (.unlisted text))
    (hfree : s.inFlight.lookup (m.cacheKey text) = none) :
    Inv m ({ s with
      inFlight := s.inFlight.insert (m.cacheKey text) ⟨m.cacheKey text, call⟩ }.setCall call
        (.leading text ⟨m.cacheKey text, call⟩)) := by
  have hlookup (hash : UInt64) :
      (s.inFlight.insert (m.cacheKey text) ⟨m.cacheKey text, call⟩).lookup hash =
        if hash = m.cacheKey text then some ⟨m.cacheKey text, call⟩
        else s.inFlight.lookup hash := by
    by_cases heq : hash = m.cacheKey text
    · rw [if_pos heq, heq, AList.lookup_insert]
    · rw [if_neg heq, AList.lookup_insert_ne heq]
  refine hs.set hcall rfl ?_ ?_ ?_ ?_ ?_ ?_ ?_
  · intro channel _ hin
    have hne : channel.hash ≠ m.cacheKey text := by
      intro heq
      rw [heq, hfree] at hin
      cases hin
    exact (hlookup _).trans ((if_neg hne).trans hin)
  · intro hash channel hleader hin
    have hin' := (hlookup hash).symm.trans hin
    split at hin'
    · exact absurd (congrArg EmbedChannel.leader (Option.some.inj hin')).symm hleader
    · exact hin'
  · exact fun _ _ => ⟨rfl, rfl⟩
  · exact fun _ _ h => h
  · exact ⟨rfl, (hlookup _).trans (if_pos rfl)⟩
  · rintro hash channel rfl hin
    have hin' := (hlookup hash).symm.trans hin
    split at hin'
    · rename_i heq
      have hchannel := Option.some.inj hin'
      have hkey := (congrArg EmbedChannel.hash hchannel).symm
      exact ⟨hkey.trans heq.symm, .inl (congrArg some hchannel)⟩
    · have hleads := (hs.leads_of_listed hin' hcall (by simp)).2
      cases hleads
  · rintro channel rfl
    exact .inl (hs.sent_eq_nil hcall (by simp) (by simp))

theorem inv_compute (hs : Inv m s) {call : Nat} {text : String} {channel : EmbedChannel}
    (hcall : s.calls[call]? = some (.leading text channel)) (answer : Except String Embedding) :
    Inv m (s.compute call text channel answer) := by
  obtain ⟨hchannel, hin⟩ := hs.phases call _ hcall
  have hleader : channel.leader = call := congrArg EmbedChannel.leader hchannel
  refine hs.set hcall rfl (fun _ _ h => h) (fun _ _ _ h => h) ?_ ?_ ?_ ?_ ?_
  · intro other hother
    refine ⟨rfl, Function.update_of_ne ?_ _ _⟩
    rintro rfl
    exact hother hleader
  · exact fun _ _ h => h
  · exact ⟨hchannel, hin, Function.update_self _ _ _⟩
  · rintro hash other rfl hlisted
    obtain ⟨hhash, hleads⟩ := hs.leads_of_listed hlisted hcall (by simp)
    exact ⟨hhash, .inl hleads⟩
  · rintro other rfl
    exact .inl (hs.sent_eq_nil hcall (by simp) (by simp))

theorem inv_remove (hs : Inv m s) {call : Nat} {text : String} {channel : EmbedChannel}
    {result : Except String Embedding}
    (hcall : s.calls[call]? = some (.computed text channel result)) :
    Inv m (s.remove m call text channel result) := by
  obtain ⟨hchannel, hin, hanswer⟩ := hs.phases call _ hcall
  have hhash : channel.hash = m.cacheKey text := congrArg EmbedChannel.hash hchannel
  have hleader : channel.leader = call := congrArg EmbedChannel.leader hchannel
  have hlisted {hash : UInt64} {other : EmbedChannel}
      (h : (s.inFlight.erase (m.cacheKey text)).lookup hash = some other) :
      hash ≠ m.cacheKey text ∧ s.inFlight.lookup hash = some other := by
    by_cases heq : hash = m.cacheKey text
    · rw [heq, AList.lookup_erase] at h
      cases h
    · rw [AList.lookup_erase_ne heq] at h
      exact ⟨heq, h⟩
  refine hs.set hcall rfl ?_ ?_ ?_ ?_ ?_ ?_ ?_
  · intro other hother hold
    have hne : other.hash ≠ m.cacheKey text := by
      intro heq
      rw [heq, ← hhash, hin] at hold
      exact hother (Option.some.inj hold ▸ hleader)
    exact (AList.lookup_erase_ne hne).trans hold
  · exact fun hash other _ h => (hlisted h).2
  · exact fun _ _ => ⟨rfl, rfl⟩
  · exact fun _ _ h => h
  · exact ⟨hchannel, hanswer⟩
  · rintro hash other rfl h
    obtain ⟨hne, hold⟩ := hlisted h
    obtain ⟨hkey, hleads⟩ := hs.leads_of_listed hold hcall (by simp)
    rw [← Option.some.inj hleads, hhash] at hkey
    exact absurd hkey.symm hne
  · rintro other rfl
    exact .inl (hs.sent_eq_nil hcall (by simp) (by simp))

theorem inv_send (hs : Inv m s) {call : Nat} {text : String} {channel : EmbedChannel}
    {result : Except String Embedding}
    (hcall : s.calls[call]? = some (.removed text channel result)) :
    Inv m (s.send call text channel result) := by
  obtain ⟨hchannel, hanswer⟩ := hs.phases call _ hcall
  have hleader : channel.leader = call := congrArg EmbedChannel.leader hchannel
  cases result with
  | error e =>
    exact hs.setCall hcall trivial (Nat.succ_pos _) (by simp [EmbedPhase.leads]) (by simp)
  | ok vector =>
    have hnil {other : EmbedChannel} (hother : other.leader = call) : s.sent other = [] := by
      subst hother
      exact hs.sent_eq_nil hcall (by simp) (by simp)
    have hvector : Function.update s.sent channel (s.sent channel ++ [vector]) channel =
        [vector] := by
      rw [Function.update_self, hnil hleader]
      rfl
    refine hs.set hcall rfl (fun _ _ h => h) (fun _ _ _ h => h) ?_ ?_ ?_ ?_ ?_
    · intro other hother
      refine ⟨Function.update_of_ne ?_ _ _, rfl⟩
      rintro rfl
      exact hother hleader
    · intro other vector' hother
      have hne : other ≠ channel := by
        rintro rfl
        rw [hnil hleader] at hother
        cases hother
      exact (Function.update_of_ne hne _ _).trans hother
    · exact ⟨hchannel, hvector⟩
    · rintro hash other rfl hlisted
      cases (hs.leads_of_listed hlisted hcall (by simp)).2
    · rintro other hother
      by_cases heq : other = channel
      · subst heq
        exact .inr ⟨vector, hvector, hanswer, .inl ⟨text, rfl⟩⟩
      · exact .inl ((Function.update_of_ne heq _ _).trans (hnil hother))

theorem inv_moves (hs : Inv m s) (h : Moves m s e s') : Inv m s' := by
  cases h with
  | hit _ => exact hs.concat fun _ => trivial
  | miss _ => exact hs.concat fun _ => trivial
  | subscribe hcall hlisted _ =>
    have hseen : (s.sent _).length = 0 := congrArg List.length (hs.sent_of_listed hlisted)
    rcases hcall with hcall | hcall
    · exact hs.setCall hcall hseen (Nat.succ_pos _) (by simp [EmbedPhase.leads]) (by simp)
    · exact hs.setCall hcall hseen (Nat.succ_pos _) (by simp [EmbedPhase.leads]) (by simp)
  | unlist hcall =>
    exact hs.setCall hcall trivial (Nat.succ_pos _) (by simp [EmbedPhase.leads]) (by simp)
  | lead hcall hfree => exact inv_lead hs hcall hfree
  | compute hcall => exact inv_compute hs hcall _
  | remove hcall => exact inv_remove hs hcall
  | send hcall => exact inv_send hs hcall
  | @store call text channel vector scan storedAt hcall =>
    have hended : Inv m (s.setCall call (.ended (.ok vector))) :=
      hs.setCall hcall trivial (Nat.succ_pos _) (by simp [EmbedPhase.leads]) (by simp)
    exact ⟨hended.phases, hended.listed, hended.sent⟩
  | recv hcall hresult =>
    obtain rfl := hs.phases _ _ hcall
    exact hs.setCall hcall (hs.received hresult) (Nat.succ_pos _)
      (by simp [EmbedPhase.leads]) (by simp)
  | dropLeader hcall =>
    exact hs.setCall hcall trivial (Nat.succ_pos _) (fun _ _ => .inr rfl) (by simp)
  | dropWaiter hcall =>
    exact hs.setCall hcall trivial (Nat.succ_pos _) (fun _ _ => .inr rfl) (by simp)

theorem inv_step (s : EmbedderState) (e : EmbedEvent) (hs : Inv m s) : Inv m (s.step m e) := by
  rcases moves_step m s e with heq | hmoves
  · rw [heq]
    exact hs
  · exact inv_moves hs hmoves

theorem sender_of_leads {phase : EmbedPhase} {channel : EmbedChannel}
    (h : phase.leads = some channel) : phase.sender = some channel := by
  cases phase <;> first | exact h | cases h

theorem outstanding_of_sender {phase : EmbedPhase} {channel : EmbedChannel}
    (h : phase.sender = some channel) : phase.Outstanding := by
  cases phase <;> first | exact Nat.succ_pos _ | cases h

theorem Led.set (hs : s.Led) {call : Nat} {phase phase' : EmbedPhase}
    (hcall : s.calls[call]? = some phase) (hcalls : s'.calls = (s.setCall call phase').calls)
    (hlisted : ∀ hash channel, s'.inFlight.lookup hash = some channel →
      s.inFlight.lookup hash = some channel ∨
        channel.leader = call ∧ phase'.leads = some channel)
    (hleads : ∀ hash channel, s'.inFlight.lookup hash = some channel →
      phase.leads = some channel → phase'.leads = some channel) : s'.Led := by
  intro hash channel h
  rw [hcalls]
  rcases hlisted hash channel h with hold | ⟨rfl, hnew⟩
  · obtain ⟨phase₀, hleader, hrole⟩ := hs hash channel hold
    by_cases heq : channel.leader = call
    · rw [heq, hcall] at hleader
      rw [heq, setCall_self hcall]
      rw [← Option.some.inj hleader] at hrole
      exact ⟨phase', rfl, hleads hash channel h hrole⟩
    · rw [setCall_other heq]
      exact ⟨phase₀, hleader, hrole⟩
  · rw [setCall_self hcall]
    exact ⟨phase', rfl, hnew⟩

theorem Led.setCall (hs : s.Led) {call : Nat} {phase phase' : EmbedPhase}
    (hcall : s.calls[call]? = some phase) (hnone : phase.leads = none) :
    (s.setCall call phase').Led := by
  apply hs.set hcall rfl (fun _ _ h => .inl h)
  intro _ _ _ h
  rw [hnone] at h
  cases h

theorem Led.concat (hs : s.Led) (phase : EmbedPhase) :
    ({ s with calls := s.calls ++ [phase] } : EmbedderState).Led := by
  intro hash channel h
  obtain ⟨phase₀, hleader, hrole⟩ := hs hash channel h
  exact ⟨phase₀, getElem?_concat_of_some hleader phase, hrole⟩

theorem led_lead (hl : s.Led) {call : Nat} {text : String}
    (hcall : s.calls[call]? = some (.unlisted text)) :
    ({ s with
      inFlight := s.inFlight.insert (m.cacheKey text) ⟨m.cacheKey text, call⟩ }.setCall call
        (.leading text ⟨m.cacheKey text, call⟩)).Led := by
  refine hl.set hcall rfl ?_ ?_
  · intro hash channel h
    have h' : (s.inFlight.insert (m.cacheKey text) ⟨m.cacheKey text, call⟩).lookup hash =
      some channel := h
    by_cases heq : hash = m.cacheKey text
    · rw [heq, AList.lookup_insert] at h'
      obtain rfl := Option.some.inj h'
      exact .inr ⟨rfl, rfl⟩
    · rw [AList.lookup_insert_ne heq] at h'
      exact .inl h'
  · intro _ _ _ h
    cases h

theorem led_remove (hs : Inv m s) (hl : s.Led) {call : Nat} {text : String}
    {channel : EmbedChannel} {result : Except String Embedding}
    (hcall : s.calls[call]? = some (.computed text channel result)) :
    (s.remove m call text channel result).Led := by
  have hlisted {hash : UInt64} {other : EmbedChannel}
      (h : (s.inFlight.erase (m.cacheKey text)).lookup hash = some other) :
      hash ≠ m.cacheKey text ∧ s.inFlight.lookup hash = some other := by
    by_cases heq : hash = m.cacheKey text
    · rw [heq, AList.lookup_erase] at h
      cases h
    · rw [AList.lookup_erase_ne heq] at h
      exact ⟨heq, h⟩
  refine hl.set hcall rfl (fun _ _ h => .inl (hlisted h).2) ?_
  intro hash other h hleads
  obtain ⟨hne, hold⟩ := hlisted h
  obtain rfl : channel = other := Option.some.inj hleads
  have hkey : channel.hash = m.cacheKey text :=
    congrArg EmbedChannel.hash (hs.phases call _ hcall).1
  exact absurd ((hs.listed hash channel hold).1.symm.trans hkey) hne

/-- Every move but a drop of a leader keeps the leaders. -/
theorem led_moves (hs : Inv m s) (hl : s.Led) (h : Moves m s e s') (hdrop : ¬ s.DropsLeader e) :
    s'.Led := by
  cases h with
  | hit _ => exact hl.concat _
  | miss _ => exact hl.concat _
  | subscribe hcall hlisted _ =>
    rcases hcall with hcall | hcall
    · exact hl.setCall hcall rfl
    · exact hl.setCall hcall rfl
  | unlist hcall => exact hl.setCall hcall rfl
  | lead hcall _ => exact led_lead hl hcall
  | compute hcall => exact hl.set hcall rfl (fun _ _ h => .inl h) (fun _ _ _ h => h)
  | remove hcall => exact led_remove hs hl hcall
  | @send call text channel result hcall =>
    cases result with
    | ok vector =>
      have hset : (s.setCall call (.sent text channel vector)).Led := hl.setCall hcall rfl
      exact hset
    | error e => exact hl.setCall hcall rfl
  | @store call text channel vector scan storedAt hcall =>
    have hset : (s.setCall call (.ended (.ok vector))).Led := hl.setCall hcall rfl
    exact hset
  | recv hcall _ => exact hl.setCall hcall rfl
  | dropLeader hcall => exact absurd ⟨_, _, hcall⟩ hdrop
  | dropWaiter hcall => exact hl.setCall hcall rfl

theorem led_step_iff (hs : Inv m s) (hl : s.Led) : (s.step m e).Led ↔ ¬ s.DropsLeader e := by
  constructor
  · intro hled hdrop
    cases e with
    | drop call =>
      obtain ⟨text, channel, hcall⟩ := hdrop
      obtain ⟨hchannel, hin⟩ := hs.phases call _ hcall
      have hstep : s.step m (.drop call) = s.setCall call .dropped := by
        simp only [step, hcall]
      rw [hstep] at hled
      obtain ⟨phase, hleader, hrole⟩ := hled channel.hash channel hin
      have hcaller : channel.leader = call := congrArg EmbedChannel.leader hchannel
      rw [hcaller, setCall_self hcall] at hleader
      rw [← Option.some.inj hleader] at hrole
      cases hrole
    | _ => exact hdrop
  · intro hdrop
    rcases moves_step m s e with heq | hmoves
    · rw [heq]
      exact hl
    · exact led_moves hs hl hmoves hdrop

theorem eq_empty_of_lookup {inFlight : AList fun _ : UInt64 => EmbedChannel}
    (h : ∀ hash, inFlight.lookup hash = none) : inFlight = ∅ := by
  apply AList.ext
  cases hentries : inFlight.entries with
  | nil => rfl
  | cons entry rest =>
    have hmem : entry ∈ inFlight.entries := by
      rw [hentries]
      exact List.mem_cons_self
    have hfound : entry.2 ∈ inFlight.lookup entry.1 := AList.mem_lookup_iff.2 hmem
    rw [h entry.1] at hfound
    cases hfound

/-- Who holds a sender of a channel is the leader itself, if every channel in the map has one. -/
theorem sender_of_hasSender (hs : Inv m s) (hl : s.Led) {channel : EmbedChannel}
    (h : s.hasSender channel = true) :
    ∃ phase, s.calls[channel.leader]? = some phase ∧ phase.sender = some channel := by
  rcases (Bool.or_eq_true _ _).mp h with hlisted | hheld
  · obtain ⟨entry, hentry, heq⟩ := List.any_eq_true.1 hlisted
    have hin : s.inFlight.lookup entry.1 = some channel := by
      rw [← of_decide_eq_true heq]
      exact AList.mem_lookup_iff.2 hentry
    obtain ⟨phase, hleader, hrole⟩ := hl _ _ hin
    exact ⟨phase, hleader, sender_of_leads hrole⟩
  · obtain ⟨phase, hphase, heq⟩ := List.any_eq_true.1 hheld
    have hsender : phase.sender = some channel := of_decide_eq_true heq
    obtain ⟨call, hcall⟩ := List.mem_iff_getElem?.1 hphase
    have hcaller : channel.leader = call := by
      have hok := hs.phases call phase hcall
      cases phase with
      | leading text _ | computed text _ _ | removed text _ _ | sent text _ _ =>
        obtain rfl := Option.some.inj hsender
        exact congrArg EmbedChannel.leader hok.1
      | _ => cases hsender
    rw [hcaller]
    exact ⟨phase, hcall, hsender⟩

theorem fromLeader_of_sent (hs : Inv m s) {channel : EmbedChannel}
    {result : Except String Embedding}
    (h : result = .error coalescedFailed ∨
      ∃ vector, result = .ok vector ∧ s.sent channel = [vector]) : s.FromLeader channel result := by
  rcases h with herror | ⟨vector, hvector, hin⟩
  · exact .inl herror
  · rcases hs.sent channel with hnone | ⟨vector', hsent, hanswer, _⟩
    · rw [hnone] at hin
      cases hin
    · rw [hin] at hsent
      obtain rfl := (List.cons.inj hsent).1
      exact .inr ⟨vector, hvector, hanswer⟩

/-- Whoever is in the map has a leader, so nobody is stranded. -/
theorem neverStrands_iff_led (hs : Inv m s) : s.NeverStrands ↔ s.Led := by
  constructor
  · exact NeverStrands.led
  · intro hl
    refine ⟨hl, ?_, ?_, ?_⟩
    · intro call channel seen hcall
      obtain rfl : seen = 0 := hs.phases call _ hcall
      cases hreceived : s.received channel 0 with
      | some result => exact .inl ⟨result, rfl, fromLeader_of_sent hs (hs.received hreceived)⟩
      | none =>
        refine .inr ⟨rfl, sender_of_hasSender hs hl ?_⟩
        unfold EmbedderState.received at hreceived
        split at hreceived
        · cases hreceived
        · cases hreceived
        · split at hreceived
          · assumption
          · cases hreceived
    · intro call channel result hcall
      exact fromLeader_of_sent hs (hs.phases call _ hcall)
    · intro hover
      apply eq_empty_of_lookup
      intro hash
      cases hin : s.inFlight.lookup hash with
      | none => rfl
      | some channel =>
        obtain ⟨phase, hleader, hrole⟩ := hl hash channel hin
        have hdone := hover phase (List.mem_of_getElem? hleader)
        exact absurd (outstanding_of_sender (sender_of_leads hrole)) hdone

/-- Every move of a call that is there lowers what is left to do. -/
theorem work_moves (h : Moves m s e s') (hcall : ∀ text now, e ≠ .call text now) :
    s'.work < s.work := by
  have hset {call : Nat} {phase phase' : EmbedPhase} (hphase : s.calls[call]? = some phase)
      (hlt : phase'.rank < phase.rank) : (s.setCall call phase').work < s.work :=
    remaining_set_lt _ hphase hlt
  cases h with
  | hit _ => exact absurd rfl (hcall _ _)
  | miss _ => exact absurd rfl (hcall _ _)
  | subscribe hphase _ _ =>
    rcases hphase with hphase | hphase <;> exact hset hphase (by simp [EmbedPhase.rank])
  | unlist hphase => exact hset hphase (by simp [EmbedPhase.rank])
  | lead hphase _ => exact remaining_set_lt _ hphase (by simp [EmbedPhase.rank])
  | compute hphase => exact remaining_set_lt _ hphase (by simp [EmbedPhase.rank])
  | remove hphase => exact remaining_set_lt _ hphase (by simp [EmbedPhase.rank])
  | @send call text channel result hphase =>
    cases result with
    | ok vector => exact remaining_set_lt _ hphase (by simp [EmbedPhase.rank])
    | error e => exact hset hphase (by simp [EmbedPhase.rank])
  | store hphase => exact remaining_set_lt _ hphase (by simp [EmbedPhase.rank])
  | recv hphase _ => exact hset hphase (by simp [EmbedPhase.rank])
  | dropLeader hphase => exact hset hphase (by simp [EmbedPhase.rank])
  | dropWaiter hphase => exact hset hphase (by simp [EmbedPhase.rank])

theorem ne_call_of_own {e : EmbedEvent} (he : e.Own) (text : String) (now : Nat) :
    e ≠ .call text now := by
  rintro rfl
  exact he

theorem work_of_advances (h : s.Advances m e) : (s.step m e).work < s.work := by
  rcases moves_step m s e with heq | hmoves
  · exact absurd (congrArg EmbedderState.calls heq) h.2
  · exact work_moves hmoves (ne_call_of_own h.1)

theorem advances_of_moves (he : e.Own) (h : Moves m s e (s.step m e)) : s.Advances m e := by
  refine ⟨he, fun heq => ?_⟩
  have hlt := work_moves h (ne_call_of_own he)
  unfold work at hlt
  rw [heq] at hlt
  exact absurd hlt (Nat.lt_irrefl _)

theorem exists_advances_of_sender {call : Nat} {phase : EmbedPhase} {channel : EmbedChannel}
    (hcall : s.calls[call]? = some phase) (hsender : phase.sender = some channel) :
    ∃ e, s.Advances m e := by
  cases phase with
  | leading text _ =>
    refine ⟨.compute call (.error coalescedFailed), advances_of_moves trivial ?_⟩
    simpa only [step, hcall] using Moves.compute hcall
  | computed text _ result =>
    refine ⟨.remove call, advances_of_moves trivial ?_⟩
    simpa only [step, hcall] using Moves.remove hcall
  | removed text _ result =>
    refine ⟨.send call, advances_of_moves trivial ?_⟩
    simpa only [step, hcall] using Moves.send hcall
  | sent text _ vector =>
    refine ⟨.store call SmartEmbedder.AgeScan.listed 0, advances_of_moves trivial ?_⟩
    simpa only [step, hcall] using Moves.store hcall
  | _ => cases hsender

/-- As long as a call is outstanding, some call can go on by itself. -/
theorem exists_advances (h : s.NeverStrands) {call : Nat} {phase : EmbedPhase}
    (hcall : s.calls[call]? = some phase) (hout : phase.Outstanding) :
    ∃ e, s.Advances m e := by
  cases phase with
  | missed text =>
    refine ⟨.get call, advances_of_moves trivial ?_⟩
    simp only [step, hcall, get]
    split
    · rename_i hlisted
      exact .subscribe (.inl hcall) hlisted (.inl rfl)
    · exact .unlist hcall
  | unlisted text =>
    refine ⟨.entry call, advances_of_moves trivial ?_⟩
    simp only [step, hcall, entry]
    split
    · rename_i hlisted
      exact .subscribe (.inr hcall) hlisted (.inr rfl)
    · rename_i hfree
      exact .lead hcall hfree
  | waiting channel seen =>
    rcases h.waits call channel seen hcall with ⟨result, hresult, _⟩ | ⟨_, phase, hleader, hrole⟩
    · refine ⟨.recv call, advances_of_moves trivial ?_⟩
      simp only [step, hcall, recv, hresult]
      exact .recv hcall hresult
    · exact exists_advances_of_sender hleader hrole
  | leading text channel => exact exists_advances_of_sender hcall rfl
  | computed text channel result => exact exists_advances_of_sender hcall rfl
  | removed text channel result => exact exists_advances_of_sender hcall rfl
  | sent text channel vector => exact exists_advances_of_sender hcall rfl
  | ended result => exact absurd hout (Nat.lt_irrefl 0)
  | answered channel result => exact absurd hout (Nat.lt_irrefl 0)
  | dropped => exact absurd hout (Nat.lt_irrefl 0)

/-- No call is outstanding, and every waiter has what its leader computed or an error. -/
def AllEnded (s : EmbedderState) : Prop :=
  s.NeverStrands ∧ (∀ phase ∈ s.calls, ¬ phase.Outstanding) ∧ s.inFlight = ∅

theorem led_init (cache : EmbeddingCache) : (init cache).Led := by
  intro hash channel h
  cases h

theorem steps_neverStrands_iff (hs : Inv m s) (hl : s.NeverStrands) (es : List EmbedEvent) :
    AllSteps (step m) (fun s e => (s.step m e).NeverStrands) s es ↔
      AllSteps (step m) (fun s e => ¬ s.DropsLeader e) s es := by
  apply allSteps_congr_of_invariant inv_step _ hs hl
  intro s e hs hl
  rw [neverStrands_iff_led (inv_step s e hs)]
  exact led_step_iff hs hl.led

/-- The invariant, with nobody stranded. -/
def Sound (m : SmartEmbedder) (s : EmbedderState) : Prop := Inv m s ∧ s.NeverStrands

theorem sound_init (cache : EmbeddingCache) : Sound m (init cache) :=
  ⟨inv_init cache, (neverStrands_iff_led (inv_init (m := m) cache)).2 (led_init cache)⟩

theorem sound_step (s : EmbedderState) (e : EmbedEvent) (hdrop : ¬ s.DropsLeader e)
    (hs : Sound m s) : Sound m (s.step m e) := by
  have hinv := inv_step s e hs.1
  exact ⟨hinv, (neverStrands_iff_led hinv).2 ((led_step_iff hs.1 hs.2.led).2 hdrop)⟩

theorem not_dropsLeader_of_advances (h : s.Advances m e) : ¬ s.DropsLeader e := by
  intro hdrop
  cases e with
  | drop call => exact h.1
  | _ => exact hdrop

/-- From a state with nobody stranded the calls that are there come to an end, however they take
turns. -/
theorem allEnded_of_advances (hs : Sound m s) {es : List EmbedEvent}
    (hes : AllSteps (step m) (Advances m) s es) :
    es.length ≤ s.work ∧
      ((∀ e, ¬ (run (step m) s es).Advances m e) → (run (step m) s es).AllEnded) := by
  refine ⟨length_le_of_lowers (fun _ _ => work_of_advances) hes, ?_⟩
  intro hstuck
  have hkept : Sound m (run (step m) s es) :=
    run_invariant sound_step hs (allSteps_imp (fun _ _ => not_dropsLeader_of_advances) hes)
  have hover : ∀ phase ∈ (run (step m) s es).calls, ¬ phase.Outstanding := by
    intro phase hphase hout
    obtain ⟨call, hcall⟩ := List.mem_iff_getElem?.1 hphase
    obtain ⟨e, hadvance⟩ := exists_advances (m := m) hkept.2 hcall hout
    exact hstuck e hadvance
  exact ⟨hkept.2, hover, hkept.2.quiet hover⟩

/-- Nobody is ever stranded exactly if no leader is dropped while its provider computes, and then
all the calls that are there end and leave the map empty. -/
theorem runs_neverStrands_iff (m : SmartEmbedder) (cache : EmbeddingCache)
    (es : List EmbedEvent) :
    (AllSteps (step m) (fun s e => (s.step m e).NeverStrands) (init cache) es ↔
      AllSteps (step m) (fun s e => ¬ s.DropsLeader e) (init cache) es) ∧
    (AllSteps (step m) (fun s e => ¬ s.DropsLeader e) (init cache) es →
      ∀ es', AllSteps (step m) (Advances m) (run (step m) (init cache) es) es' →
        es'.length ≤ (run (step m) (init cache) es).work ∧
          ((∀ e, ¬ (run (step m) (init cache) (es ++ es')).Advances m e) →
            (run (step m) (init cache) (es ++ es')).AllEnded)) := by
  refine ⟨steps_neverStrands_iff (inv_init cache) (sound_init (m := m) cache).2 es, ?_⟩
  intro hes es' hes'
  rw [run_append]
  exact allEnded_of_advances (run_invariant sound_step (sound_init cache) hes) hes'

/-- The first call leads and is dropped, the second waits for it. -/
theorem dropped_leader_strands :
    ¬ ∀ (m : SmartEmbedder) (cache : EmbeddingCache) (es : List EmbedEvent),
      (run (step m) (init cache) es).NeverStrands := by
  intro h
  have hstrands := h (.firstLetters 8 4) ∅
    [.call "a" 0, .get 0, .entry 0, .call "a" 0, .get 1, .drop 0]
  obtain ⟨phase, hleader, hrole⟩ := hstrands.led 97 ⟨97, 0⟩ rfl
  obtain rfl : EmbedPhase.dropped = phase := Option.some.inj hleader
  cases hrole

/-- The channel is in the map and its leader was dropped. -/
def Stranded (s : EmbedderState) (channel : EmbedChannel) : Prop :=
  s.inFlight.lookup channel.hash = some channel ∧
    s.calls[channel.leader]? = some .dropped

theorem stranded_moves (hs : Inv m s) {channel : EmbedChannel} (hc : s.Stranded channel)
    (h : Moves m s e s') : s'.Stranded channel := by
  have hset {call : Nat} {phase phase' : EmbedPhase} (hphase : s.calls[call]? = some phase)
      (hne : phase ≠ .dropped) :
      (s.setCall call phase').calls[channel.leader]? = some .dropped := by
    rw [setCall_other _ phase']
    · exact hc.2
    · intro heq
      rw [← heq, hc.2] at hphase
      exact hne (Option.some.inj hphase).symm
  cases h with
  | hit _ => exact ⟨hc.1, getElem?_concat_of_some hc.2 _⟩
  | miss _ => exact ⟨hc.1, getElem?_concat_of_some hc.2 _⟩
  | subscribe hcall _ _ =>
    rcases hcall with hcall | hcall <;> exact ⟨hc.1, hset hcall (by simp)⟩
  | unlist hcall => exact ⟨hc.1, hset hcall (by simp)⟩
  | @lead call text hcall hfree =>
    refine ⟨(AList.lookup_insert_ne ?_).trans hc.1, hset hcall (by simp)⟩
    intro heq
    rw [← heq, hc.1] at hfree
    cases hfree
  | compute hcall => exact ⟨hc.1, hset hcall (by simp)⟩
  | @remove call text own result hcall =>
    obtain ⟨hown, hin, _⟩ := hs.phases call _ hcall
    refine ⟨(AList.lookup_erase_ne ?_).trans hc.1, hset hcall (by simp)⟩
    intro heq
    have hkey : own.hash = m.cacheKey text := congrArg EmbedChannel.hash hown
    rw [hkey, ← heq, hc.1] at hin
    have hleader := congrArg EmbedChannel.leader ((Option.some.inj hin).trans hown)
    have hdropped := hc.2
    rw [hleader, hcall] at hdropped
    cases hdropped
  | @send call text own result hcall =>
    cases result with
    | ok vector => exact ⟨hc.1, hset hcall (by simp)⟩
    | error e => exact ⟨hc.1, hset hcall (by simp)⟩
  | store hcall => exact ⟨hc.1, hset hcall (by simp)⟩
  | recv hcall _ => exact ⟨hc.1, hset hcall (by simp)⟩
  | dropLeader hcall => exact ⟨hc.1, hset hcall (by simp)⟩
  | dropWaiter hcall => exact ⟨hc.1, hset hcall (by simp)⟩

theorem stranded_run (hs : Inv m s) {channel : EmbedChannel} (hc : s.Stranded channel)
    (es : List EmbedEvent) :
    (run (step m) s es).Stranded channel ∧ (run (step m) s es).received channel 0 = none := by
  have hstep (s : EmbedderState) (e : EmbedEvent) (h : Inv m s ∧ s.Stranded channel) :
      Inv m (s.step m e) ∧ (s.step m e).Stranded channel := by
    refine ⟨inv_step s e h.1, ?_⟩
    rcases moves_step m s e with heq | hmoves
    · rw [heq]
      exact h.2
    · exact stranded_moves h.1 h.2 hmoves
  have hkept := run_preserves hstep ⟨hs, hc⟩ es
  refine ⟨hkept.2, ?_⟩
  have hsender : (run (step m) s es).hasSender channel = true := by
    apply (Bool.or_eq_true _ _).mpr
    left
    exact List.any_eq_true.2 ⟨_, AList.mem_lookup_iff.1 hkept.2.1, decide_eq_true rfl⟩
  unfold EmbedderState.received
  rw [hkept.1.sent_of_listed hkept.2.1, List.drop_nil]
  exact if_pos hsender

/-- The steps of a call that nobody else interferes with. -/
def alone (call : Nat) (c : EmbedCall) : List EmbedEvent :=
  [.call c.text c.now, .get call, .entry call, .compute call c.answer, .remove call, .send call,
    .store call c.scan c.storedAt]

theorem run_alone (m : SmartEmbedder) (s : EmbedderState) (c : EmbedCall)
    (hfree : s.inFlight.lookup (m.cacheKey c.text) = none) :
    (run (step m) s (alone s.calls.length c)).cache = (m.embed s.cache c).1 ∧
      (run (step m) s (alone s.calls.length c)).calls =
        s.calls ++ [.ended (m.embed s.cache c).2] := by
  unfold SmartEmbedder.embed alone
  cases hcached : m.cached s.cache c.now c.text with
  | some vector => simp [step, begin, hcached]
  | none =>
    cases hanswer : c.answer with
    | ok vector =>
      by_cases hmax : 0 < m.config.cacheMaxEntries <;>
        simp [step, begin, hcached, get, entry, hfree, setCall, compute, remove, send, store, hmax]
    | error e =>
      simp [step, begin, hcached, get, entry, hfree, setCall, compute, remove, send]

end EmbedderState

end Conproxy
