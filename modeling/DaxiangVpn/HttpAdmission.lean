import DaxiangVpn.NetipPrefix
import DaxiangVpn.TokenBucket
import Mathlib.Data.Rat.Floor

/-!
# Admission of requests

Requests take a token of a bucket of all sources and one of the bucket of their own source before
their handlers run. Buckets are made when a source is first seen and evicted when room is needed.
Tokens are exact rationals and times are nanoseconds. Buckets and leases are kept by number, which
stands for their addresses.
-/

namespace DaxiangVpn.HttpAdmission

open NetipPrefix TokenBucket Function

/-! ## Configuration -/

/-- One token for each period, up to a burst. -/
structure TokenBudget where
  every : ℤ
  burst : ℤ

structure AdmissionConfig where
  /-- Requests at once. -/
  maxConcurrent : ℤ
  maxConcurrentPerSource : ℤ
  maxSources : ℤ
  globalBudget : TokenBudget
  perSource : TokenBudget
  sourceIdleTTL : ℤ
  /-- When to try again after a limit of concurrency. -/
  busyRetryAfter : ℤ

def millisecond : ℤ := 1000000

def second : ℤ := 1000 * millisecond

def minute : ℤ := 60 * second

def hour : ℤ := 60 * minute

def defaultAdmissionConfig : AdmissionConfig :=
  ⟨8, 2, 1024, ⟨50 * millisecond, 40⟩, ⟨second, 4⟩, 10 * minute, second⟩

def validRate (rate : TokenBudget) (maxBurst : ℤ) : Bool :=
  millisecond ≤ rate.every ∧ rate.every ≤ hour ∧ 1 ≤ rate.burst ∧ rate.burst ≤ maxBurst

/-- The checks of `NewAdmission`. -/
def AdmissionConfig.accepted (c : AdmissionConfig) : Bool :=
  ¬ (c.maxConcurrent < 1 ∨ 1024 < c.maxConcurrent ∨ c.maxConcurrentPerSource < 1 ∨
    c.maxConcurrent < c.maxConcurrentPerSource ∨ c.maxSources < 1 ∨ 4096 < c.maxSources ∨
    validRate c.globalBudget 65536 = false ∨ validRate c.perSource 1024 = false ∨
    c.sourceIdleTTL < second ∨ 24 * hour < c.sourceIdleTTL ∨ c.busyRetryAfter < second ∨
    minute < c.busyRetryAfter ∨ c.busyRetryAfter % second ≠ 0) ∧
  ¬ c.sourceIdleTTL < c.perSource.burst * c.perSource.every

def TokenBudget.refill (budget : TokenBudget) (b : Bucket ℚ) (now : ℤ) : Bucket ℚ :=
  TokenBucket.refill (budget.burst : ℚ) budget.every b now

/-- `retry`, from the tokens of a bucket. -/
def TokenBudget.retry (budget : TokenBudget) (tokens : ℚ) : ℤ :=
  if 1 ≤ tokens then 0 else ⌈(1 - tokens) * budget.every⌉

/-! ## Requests -/

structure AdmissionSource where
  rate : Bucket ℚ
  active : ℤ
  /-- Time of the last request that was admitted. -/
  lastSeen : ℤ

/-- The right of a request to run. -/
structure AdmissionLease where
  bucket : ℕ
  released : Bool

/-- Buckets and leases. -/
structure Admission where
  config : AdmissionConfig
  active : ℤ
  globalTokens : Bucket ℚ
  /-- Bucket of each source that is remembered. -/
  sources : List (String × ℕ)
  /-- No eviction before this time; none at first. -/
  nextSweep : Option ℤ
  buckets : ℕ → AdmissionSource
  made : ℕ
  leases : ℕ → AdmissionLease
  leased : ℕ

def newAdmission (config : AdmissionConfig) (now : ℤ) : Option Admission :=
  if config.accepted then
    some ⟨config, 0, ⟨config.globalBudget.burst, now⟩, [], none, fun _ => ⟨⟨0, 0⟩, 0, 0⟩, 0,
      fun _ => ⟨0, false⟩, 0⟩
  else none

/-- Why a request is not admitted. -/
structure AdmissionDenial where
  status : ℕ
  code : String
  /-- When to try again. -/
  retry : ℤ
  deriving DecidableEq

def admissionCancelled : AdmissionDenial := ⟨503, "request_cancelled", 0⟩

/-- The source is no address in canonical form. -/
def badRequest : AdmissionDenial := ⟨400, "bad_request", 0⟩

/-- A limit is reached. -/
def AdmissionConfig.exhausted (c : AdmissionConfig) : AdmissionDenial :=
  ⟨503, "resource_exhausted", c.busyRetryAfter⟩

/-- A bucket has no token. -/
def rateLimited (retry : ℤ) : AdmissionDenial := ⟨429, "rate_limited", retry⟩

inductive Answer
  | granted (lease : ℕ)
  | denied (denial : AdmissionDenial)
  deriving DecidableEq

/-- Whether the context of a request is done at each of its tests. -/
structure Context where
  /-- Before anything else. -/
  entry : Bool
  locked : Bool
  reserving : Bool

def unmap (a : Addr) : Addr :=
  if a.is4In6 then ⟨.v4, a.value % 2 ^ 32, Nat.mod_lt _ (by decide)⟩ else a

def parseAddress (value : String) : Option Addr := (parseAddr value.toList).map unmap

def canonical (source : String) : Bool :=
  (parseAddress source).any fun ip => decide (String.ofList ip.text = source)

variable (a : Admission)

def Admission.setBucket (id : ℕ) (f : AdmissionSource → AdmissionSource) : Admission :=
  { a with buckets := update a.buckets id (f (a.buckets id)) }

def Admission.refillSource (id : ℕ) (now : ℤ) : Admission :=
  a.setBucket id fun x => { x with rate := a.config.perSource.refill x.rate now }

/-- The loop body of `sweep`. -/
def Admission.sweepSource (now : ℤ) (a : Admission) (entry : String × ℕ) : Admission :=
  if (a.buckets entry.2).active ≠ 0 ∨ now - (a.buckets entry.2).lastSeen <
      a.config.sourceIdleTTL then a
  else if (a.config.perSource.burst : ℚ) ≤
      ((a.refillSource entry.2 now).buckets entry.2).rate.tokens then
    { a.refillSource entry.2 now with sources := a.sources.filter fun x => x.1 ≠ entry.1 }
  else a.refillSource entry.2 now

/-- `sweep`. A loop body reads and changes its own bucket only, so the order of the map is of no
consequence. -/
def Admission.sweep (now : ℤ) : Admission :=
  if a.nextSweep.any fun t => decide (now < t) then a
  else a.sources.foldl (Admission.sweepSource now) { a with nextSweep := some (now + second) }

def Admission.reserved (source : String) (id : ℕ) (now : ℤ) : Admission :=
  { a with
    sources := (source, id) :: a.sources.filter fun x => x.1 ≠ source
    globalTokens := spend a.globalTokens
    active := a.active + 1
    buckets := update a.buckets id
      ⟨spend (a.buckets id).rate, (a.buckets id).active + 1, max now (a.buckets id).lastSeen⟩
    leases := update a.leases a.leased ⟨id, false⟩
    leased := a.leased + 1 }

/-- The end of `acquire`: reserve unless the request was cancelled. -/
def Admission.reserve (ctx : Context) (source : String) (id : ℕ) (now : ℤ) :
    Admission × Answer :=
  if ctx.reserving then (a, .denied admissionCancelled)
  else (a.reserved source id now, .granted a.leased)

/-- A new bucket. -/
def Admission.make (now : ℤ) : Admission :=
  { a with
    buckets := update a.buckets a.made ⟨⟨a.config.perSource.burst, now⟩, 0, now⟩
    made := a.made + 1 }

/-- `acquire` of a source that is remembered. -/
def Admission.acquireKnown (ctx : Context) (source : String) (id : ℕ) (now : ℤ) :
    Admission × Answer :=
  if a.config.maxConcurrentPerSource ≤ (a.buckets id).active then (a, .denied a.config.exhausted)
  else
    let b := a.refillSource id now
    let retry := max (a.config.globalBudget.retry b.globalTokens.tokens)
      (a.config.perSource.retry (b.buckets id).rate.tokens)
    if 0 < retry then (b, .denied (rateLimited retry)) else b.reserve ctx source id now

/-- `acquire` of a source that is not remembered. -/
def Admission.acquireNew (ctx : Context) (source : String) (now : ℤ) : Admission × Answer :=
  let retry := a.config.globalBudget.retry a.globalTokens.tokens
  if 0 < retry then (a, .denied (rateLimited retry))
  else if a.config.maxSources ≤ a.sources.length then
    let b := a.sweep now
    if a.config.maxSources ≤ b.sources.length then (b, .denied a.config.exhausted)
    else (b.make now).reserve ctx source b.made now
  else (a.make now).reserve ctx source a.made now

/-- The bucket of all sources is refilled. -/
def Admission.refillGlobal (now : ℤ) : Admission :=
  { a with globalTokens := a.config.globalBudget.refill a.globalTokens now }

def Admission.acquire (ctx : Context) (source : String) (now : ℤ) : Admission × Answer :=
  if ctx.entry then (a, .denied admissionCancelled)
  else if canonical source = false then (a, .denied badRequest)
  else if ctx.locked then (a, .denied admissionCancelled)
  else
    let b := a.refillGlobal now
    if b.config.maxConcurrent ≤ b.active then (b, .denied b.config.exhausted)
    else match b.sources.lookup source with
      | some id => b.acquireKnown ctx source id now
      | none => b.acquireNew ctx source now

/-- `release`, once for each lease. -/
def Admission.release (k : ℕ) : Admission :=
  if k < a.leased ∧ (a.leases k).released = false then
    { a.setBucket (a.leases k).bucket fun x => { x with active := x.active - 1 } with
      active := a.active - 1
      leases := update a.leases k { a.leases k with released := true } }
  else a

inductive Call
  /-- A request asks for a lease. -/
  | acquire (ctx : Context) (source : String) (now : ℤ)
  | release (lease : ℕ)

def step (a : Admission) : Call → Admission × Option Answer
  | .acquire ctx source now => ((a.acquire ctx source now).1, some (a.acquire ctx source now).2)
  | .release k => (a.release k, none)

def after (calls : List Call) : Admission := calls.foldl (fun a c => (step a c).1) a

def answers (a : Admission) : List Call → List (Option Answer)
  | [] => []
  | c :: rest => (step a c).2 :: answers (step a c).1 rest

def Call.reading : Call → Option ℤ
  | .acquire ctx source now => if ctx.entry ∨ canonical source = false ∨ ctx.locked then none
      else some now
  | .release _ => none

/-- The clock does not go back. -/
def Steady (clock : ℤ) : List Call → Prop
  | [] => True
  | c :: rest => (∀ now, c.reading = some now → clock ≤ now) ∧ Steady (c.reading.getD clock) rest

def grantOf (a : Admission) : Call → Option (String × ℤ)
  | .acquire ctx source now =>
    match (a.acquire ctx source now).2 with
    | .granted _ => some (source, now)
    | .denied _ => none
  | .release _ => none

/-- Source and time of each lease that is granted. -/
def grants (a : Admission) : List Call → List (String × ℤ)
  | [] => []
  | c :: rest => (grantOf a c).toList ++ grants (step a c).1 rest

end DaxiangVpn.HttpAdmission
