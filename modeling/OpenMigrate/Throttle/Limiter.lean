import Mathlib.Algebra.Order.Ring.Rat
import Mathlib.Data.List.AList
import Mathlib.Data.List.Infix
import Mathlib.Data.Nat.Cast.Order.Ring
import Mathlib.Tactic.Common

namespace OpenMigrate.Throttle

/-- Numbers of the source are exact here. -/
structure ThrottleConfig where
  maxConcurrent : ℚ := 4
  requestsPerSecond : ℚ := 10
  maxRetries : ℚ := 5
  baseBackoffMs : ℚ := 1000
  maxBackoffMs : ℚ := 60000
  jitterMs : ℚ := 500

structure ThrottleStats where
  throttleEvents : ℕ := 0
  retryAttempts : ℕ := 0
  totalWaitTimeMs : ℚ := 0
  exceededMaxRetries : ℕ := 0

structure TokenBucket where
  tokens : ℚ
  lastRefill : ℚ
  capacity : ℚ
  refillRate : ℚ

namespace TokenBucket

def create (capacity refillRate now : ℚ) : TokenBucket := ⟨capacity, now, capacity, refillRate⟩

def refill (b : TokenBucket) (now : ℚ) : TokenBucket :=
  { b with
    tokens := min b.capacity (b.tokens + (now - b.lastRefill) / 1000 * b.refillRate)
    lastRefill := now }

def tryConsume (b : TokenBucket) (now : ℚ) : Bool × TokenBucket :=
  let b := b.refill now
  if 1 ≤ b.tokens then (true, { b with tokens := b.tokens - 1 }) else (false, b)

end TokenBucket

/-- What is thrown: an `Error` with its message, or anything else with its text. -/
inductive Thrown where
  | error (message : String)
  | other (text : String)
  deriving DecidableEq

structure Response where
  status : ℕ
  headers : List (String × String)
  body : String
  deriving DecidableEq

structure ThrottleLimiter where
  config : ThrottleConfig
  shared : Bool
  buckets : AList (fun _ : String => TokenBucket)
  stats : ThrottleStats
  activeRequests : ℤ

/-- What a call finds when it runs on: the time, a random number, what `Date` reads in a header that is not a
number, and what the awaited budget or request came to. -/
structure Wake where
  now : ℚ
  random : ℚ
  date : Option ℚ
  budget : Except Thrown Unit
  response : Except Thrown Response

/-- White space as `parseInt` skips it. -/
def isStrWhiteSpace (c : Char) : Bool :=
  (c.toNat ∈ [9, 10, 11, 12, 13, 32, 160, 0x1680, 0x2028, 0x2029, 0x202f, 0x205f, 0x3000, 0xfeff]) ||
    (0x2000 ≤ c.toNat && c.toNat ≤ 0x200a)

def digits (s : List Char) : Option ℕ :=
  match s.takeWhile Char.isDigit with
  | [] => none
  | ds => some (ds.foldl (fun n c => 10 * n + (c.toNat - '0'.toNat)) 0)

def parseInt (s : String) : Option ℤ :=
  match s.toList.dropWhile isStrWhiteSpace with
  | '-' :: rest => (digits rest).map fun n => -(n : ℤ)
  | '+' :: rest => (digits rest).map fun n => (n : ℤ)
  | rest => (digits rest).map fun n => (n : ℤ)

def parseRetryAfterMs (headerValue : String) (i : Wake) : ℚ :=
  match parseInt headerValue with
  | some seconds => seconds * 1000
  | none =>
    match i.date with
    | some time => max 0 (time - i.now)
    | none => 60000

/-- `toLowerCase`, as far as the words looked for can tell: the Kelvin sign is the one letter outside ASCII
whose lower case is in it. -/
def toLowerCase (message : String) : List Char :=
  message.toList.map fun c => if c = '\u212a' then 'k' else c.toLower

def isTransientError (message : String) : Bool :=
  ["timeout", "network", "connection", "ECONN", "ETIMEDOUT", "EPIPE"].any fun word =>
    decide (word.toList <:+: toLowerCase message)

/-- An error that is not tried again: `error instanceof Error && !isTransientError(error)`. -/
def Thrown.isPermanent : Thrown → Bool
  | .error message => !isTransientError message
  | .other _ => false

/-- `error instanceof Error ? error : new Error(String(error))` -/
def Thrown.asError : Thrown → Thrown
  | .error message => .error message
  | .other text => .error text

namespace ThrottleLimiter

def create (config : ThrottleConfig) (shared : Bool) : ThrottleLimiter := ⟨config, shared, ∅, {}, 0⟩

variable (l : ThrottleLimiter)

def bucketKey (tenantId provider : String) : String := tenantId ++ ":" ++ provider

def getBucket (tenantId provider : String) (now : ℚ) : TokenBucket :=
  match l.buckets.lookup (bucketKey tenantId provider) with
  | some bucket => bucket
  | none => .create l.config.requestsPerSecond l.config.requestsPerSecond now

def calculateBackoff (attempt : ℕ) (random : ℚ) : ℚ :=
  min (l.config.baseBackoffMs * 2 ^ attempt + random * l.config.jitterMs) l.config.maxBackoffMs

/-- An empty header is no header. -/
def handleRateLimited (retryAfterHeader : Option String) (i : Wake) : ℚ × ThrottleLimiter :=
  let l' := { l with stats := { l.stats with throttleEvents := l.stats.throttleEvents + 1 } }
  match retryAfterHeader.filter (· != "") with
  | some header => (parseRetryAfterMs header i, l')
  | none => (l.calculateBackoff 0 i.random, l')

def countRetry (waitTime : ℚ) : ThrottleLimiter :=
  { l with
    stats := { l.stats with
      retryAttempts := l.stats.retryAttempts + 1
      totalWaitTimeMs := l.stats.totalWaitTimeMs + waitTime } }

def countExceeded : ThrottleLimiter :=
  { l with stats := { l.stats with exceededMaxRetries := l.stats.exceededMaxRetries + 1 } }

end ThrottleLimiter

/-- Where a call of `executeWithThrottling` stands: at the head of its loop, waiting for a slot, for a token, for
the shared budget, for the response, in its catch block, or settled. -/
inductive CallState where
  | head
  | polling
  | refilling
  | sharing
  | requesting
  | caught (error : Thrown)
  | settled (result : Except Thrown Response)

/-- A call with its variables. `held` is of the model: the slots it has taken and not given back. -/
structure ThrottledCall where
  tenantId : String
  provider : String
  attempt : ℕ := 0
  lastError : Option Thrown := none
  state : CallState := .head
  held : ℤ := 0

section Steps

variable (l : ThrottleLimiter) (c : ThrottledCall)

def takeSlot (state : CallState) : ThrottleLimiter × ThrottledCall :=
  ({ l with activeRequests := l.activeRequests + 1 }, { c with held := c.held + 1, state := state })

def releaseSlot (state : CallState) : ThrottleLimiter × ThrottledCall :=
  ({ l with activeRequests := l.activeRequests - 1 }, { c with held := c.held - 1, state := state })

/-- The catch block gives up: the error is permanent, or this was the last attempt. -/
def givesUp (config : ThrottleConfig) (attempt : ℕ) (error : Thrown) : Bool :=
  error.isPermanent || decide (config.maxRetries < (attempt + 1 : ℕ))

def isRateLimited (r : Response) : Bool := r.status == 429 || r.status == 503

def onResponse (i : Wake) (r : Response) : ThrottleLimiter × ThrottledCall :=
  if isRateLimited r then
    let (waitTime, l') := l.handleRateLimited (r.headers.lookup "retry-after") i
    let l' := l'.countRetry waitTime
    if (c.attempt : ℚ) < l.config.maxRetries then (l', { c with attempt := c.attempt + 1, state := .head })
    else
      (l'.countExceeded, { c with state := .caught (.error (s!"Rate limited after " ++
        s!"{l.config.maxRetries} retries. Status: {r.status}")) })
  else releaseSlot l c (.settled (.ok r))

def onCaught (i : Wake) (error : Thrown) : ThrottleLimiter × ThrottledCall :=
  let c := { c with lastError := some error.asError }
  if error.isPermanent then releaseSlot l c (.settled (.error error))
  else if l.config.maxRetries < (c.attempt + 1 : ℕ) then
    releaseSlot l.countExceeded { c with attempt := c.attempt + 1 } (.settled (.error error.asError))
  else
    (l.countRetry (l.calculateBackoff c.attempt i.random), { c with attempt := c.attempt + 1, state := .head })

/-- One run of a call up to its next wait. -/
def executeWithThrottling (i : Wake) : ThrottleLimiter × ThrottledCall :=
  match c.state with
  | .head =>
    if (c.attempt : ℚ) ≤ l.config.maxRetries then (l, { c with state := .polling })
    else releaseSlot l c (.settled (.error (c.lastError.getD (.other "undefined"))))
  | .polling =>
    if l.config.maxConcurrent ≤ l.activeRequests then (l, c) else takeSlot l c .refilling
  | .refilling =>
    let r := (l.getBucket c.tenantId c.provider i.now).tryConsume i.now
    ({ l with buckets := l.buckets.insert (ThrottleLimiter.bucketKey c.tenantId c.provider) r.2 },
      if r.1 then { c with state := .sharing } else c)
  | .sharing =>
    match l.shared, i.budget with
    | true, .error error => releaseSlot l c (.caught error)
    | _, _ => (l, { c with state := .requesting })
  | .requesting =>
    match i.response with
    | .ok r => onResponse l c i r
    | .error error => (l, { c with state := .caught error })
  | .caught error => onCaught l c i error
  | .settled _ => (l, c)

end Steps

end OpenMigrate.Throttle
