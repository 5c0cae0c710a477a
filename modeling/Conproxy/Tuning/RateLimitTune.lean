import Mathlib.Algebra.Ring.Nat
import Conproxy.Resilience
import Conproxy.Sections
import Conproxy.Tuning.Session

/-!
# The dry run of a rate limit

`rate_limit_tune` of `tune/rate_limit.rs` runs a token bucket over the arrival times of the caller.
The numbers are `f64`, with the arithmetic as a parameter.
-/

namespace Conproxy

set_option autoImplicit false

structure RateLimitTuneParams where
  sessionId : String
  agentId : Option String
  contextId : Option String
  arrivalMs : List Nat
  rpsSweep : Option (List F64)
  burstSweep : Option (List Nat)
  budget : TuneBudget

structure RateLimitTuneCandidate where
  rps : F64
  burst : Nat
  allowed : Nat
  denied : Nat
  allowRate : F64

structure RateLimitTuneReport where
  sessionId : String
  runId : String
  candidates : List RateLimitTuneCandidate
  warnings : List String

/-- The bucket between two arrivals. -/
structure SimulatedBucket where
  tokens : F64
  lastMs : Nat
  allowed : Nat
  denied : Nat

namespace RateLimitTuneParams

def arrivals (params : RateLimitTuneParams) : List Nat :=
  params.arrivalMs.take (max (min (params.budget.maxResults * 10) (2 ^ 64 - 1)) 256)

def rpsList (params : RateLimitTuneParams) : List F64 :=
  params.rpsSweep.getD [.finite 10, .finite 50, .finite 100]

def burstList (params : RateLimitTuneParams) : List Nat := params.burstSweep.getD [1, 10, 50]

def grid (params : RateLimitTuneParams) : List (F64 × Nat) :=
  params.rpsList.flatMap fun rps => params.burstList.map fun burst => (rps, burst)

def warnings (params : RateLimitTuneParams) : List String :=
  "simulation only — does not throttle live traffic" ::
    if params.arrivals.length < params.arrivalMs.length then
      ["truncated arrivals " ++ toString params.arrivalMs.length ++ " → " ++
        toString params.arrivals.length]
    else []

section Simulation

variable (A : F32Arith) (t : TuneText)

def arrive (rps burst : F64) (bucket : SimulatedBucket) (arrival : Nat) : SimulatedBucket :=
  let dt := A.div (A.ofNat (arrival - bucket.lastMs)) (A.ofNat 1000)
  let tokens := F32.min (A.add bucket.tokens (A.mul dt rps)) burst
  if F32.ge tokens F32.one then
    ⟨A.sub tokens F32.one, arrival, bucket.allowed + 1, bucket.denied⟩
  else ⟨tokens, arrival, bucket.allowed, bucket.denied + 1⟩

def candidate (params : RateLimitTuneParams) (point : F64 × Nat) : RateLimitTuneCandidate :=
  let rps := F32.max point.1 (.finite (1 / 1000))
  let burst := max point.2 1
  let bucket := params.arrivals.foldl (arrive A rps (A.ofNat burst)) ⟨A.ofNat burst, 0, 0, 0⟩
  { rps := rps
    burst := burst
    allowed := bucket.allowed
    denied := bucket.denied
    allowRate := A.div (A.ofNat bucket.allowed) (A.ofNat (max params.arrivals.length 1)) }

def candidates (params : RateLimitTuneParams) : List RateLimitTuneCandidate :=
  params.grid.map (params.candidate A)

def json (params : RateLimitTuneParams) : Json :=
  .object
    [("arrival_count", .nat params.arrivals.length),
      ("burst_sweep", .array (params.burstList.map Json.nat)),
      ("rps_sweep", .array (params.rpsList.map (Json.f32 t)))]

def run (nanos : Nat) (params : RateLimitTuneParams) : TuneRunRecord where
  runId := newRunId nanos
  tool := "rate_limit_tune"
  params := params.json t
  metrics :=
    let rates := (params.candidates A).map RateLimitTuneCandidate.allowRate
    .object
      [("best_allow_rate", .f32 t (rates.foldl F32.max F32.zero)),
        ("candidates", .nat (params.candidates A).length)]
  selected := false

def work (nanos : Nat) (params : RateLimitTuneParams) :
    Except String (TuneRunRecord × RateLimitTuneReport) :=
  if params.arrivalMs.isEmpty then .error "arrival_ms must not be empty"
  else if params.budget.maxSweepPoints < params.grid.length then
    .error ("grid has " ++ toString params.grid.length ++ " points; max is " ++
      toString params.budget.maxSweepPoints)
  else
    .ok (params.run A t nanos,
      ⟨params.sessionId, newRunId nanos, params.candidates A, params.warnings⟩)

end Simulation

end RateLimitTuneParams

/-- `A` is the arithmetic of `f64`. -/
def rateLimitTune (A : F32Arith) (t : TuneText) (store : TuneSessionStore) (clock : ToolClock)
    (params : RateLimitTuneParams) : TuneSessionStore × Except String RateLimitTuneReport :=
  runTool t store clock params.sessionId params.agentId params.contextId
    (params.work A t clock.nanos)

end Conproxy
