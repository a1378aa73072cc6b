import DhtStore.Lifetime

namespace DhtStore

/-- A token, known by its number, and the tokens it descends from. -/
structure CancelToken where
  number : Nat
  ancestors : List Nat := []
deriving DecidableEq

/-- Whether a token is cancelled when `cancelled` are the numbers that were. -/
def CancelToken.isCancelled (t : CancelToken) (cancelled : List Nat) : Bool :=
  (t.number :: t.ancestors).any cancelled.contains

/-- What a caller limits calls by. Contexts made from one another share the token, except that a child has one of its
    own, which is cancelled together with its ancestors. -/
structure Context where
  token : CancelToken
  deadline : Option Instant := none
deriving DecidableEq

namespace Context

/-- Sets a deadline; of two, the earlier one holds. -/
def withDeadline (c : Context) (deadline : Instant) : Context :=
  { c with deadline := some (match c.deadline with
      | none => deadline
      | some current => min current deadline) }

/-- A context with the same deadline and a token of the given number that descends from this one's. -/
def child (c : Context) (number : Nat) : Context :=
  { c with token := ⟨number, c.token.number :: c.token.ancestors⟩ }

/-- A context around the same token that has no deadline. -/
def withoutDeadline (c : Context) : Context := { token := c.token }

end Context

/-- Contexts in the order they were made, with the tokens cancelled so far and the time. -/
structure ContextPool where
  now : Instant := 0
  tokens : Nat := 1
  cancelled : List Nat := []
  contexts : List Context := [{ token := ⟨0, []⟩ }]

/-- What is done with contexts, each named by its place in the pool. -/
inductive ContextOp
  | clone (slot : Nat)
  | child (slot : Nat)
  | withTimeout (slot ms : Nat)
  | withDeadline (slot : Nat) (deadline : Instant)
  /-- Makes a context around the token of another. -/
  | withCancellation (slot : Nat)
  /-- Makes a context with a new token. -/
  | fresh
  | cancel (slot : Nat)
  | advance (ms : Nat)
deriving DecidableEq

namespace ContextPool

def derive (p : ContextPool) (slot : Nat) (f : Context → Context) : ContextPool :=
  match p.contexts[slot]? with
  | none => p
  | some c => { p with contexts := p.contexts ++ [f c] }

def apply (p : ContextPool) : ContextOp → ContextPool
  | .clone slot => p.derive slot id
  | .child slot => { p.derive slot (·.child p.tokens) with tokens := p.tokens + 1 }
  | .withTimeout slot ms => p.derive slot (·.withDeadline (p.now + ms))
  | .withDeadline slot deadline => p.derive slot (·.withDeadline deadline)
  | .withCancellation slot => p.derive slot Context.withoutDeadline
  | .fresh =>
    { p with contexts := p.contexts ++ [{ token := ⟨p.tokens, []⟩ }], tokens := p.tokens + 1 }
  | .cancel slot =>
    match p.contexts[slot]? with
    | none => p
    | some c => { p with cancelled := c.token.number :: p.cancelled }
  | .advance ms => { p with now := p.now + ms }

/-- The reason why a context is over. A cancellation comes before a deadline that is reached. -/
def error? (p : ContextPool) (c : Context) : Option Interruption :=
  if c.token.isCancelled p.cancelled then some .canceled
  else
    match c.deadline with
    | some deadline => if deadline ≤ p.now then some .deadlineExceeded else none
    | none => none

/-- The lifetime that a context grants to a call, as things stand. -/
def lifetime (p : ContextPool) (c : Context) : Lifetime :=
  { cancelAt := if c.token.isCancelled p.cancelled then some 0 else none, deadline := c.deadline }

end ContextPool

/-- Someone waits for a context to be over, while others work with the contexts. The wait is polled at first,
    and then only once something has woken it. -/
structure ContextWait where
  context : Context
  pool : ContextPool
  /-- Whether the timer for the deadline has gone off. -/
  elapsed : Bool := false
  woken : Bool := true
  /-- What the wait came to, and when. -/
  resolved : Option (Interruption × Instant) := none

namespace ContextWait

/-- The branch that is ready, the one of the token before the one of the timer. Without a deadline there is no
    timer. -/
def ready? (w : ContextWait) : Option Interruption :=
  let canceled? : Option Interruption :=
    if w.context.token.isCancelled w.pool.cancelled then some .canceled else none
  match w.context.deadline with
  | some _ => canceled?.or (if w.elapsed then some .deadlineExceeded else none)
  | none => canceled?

def poll (w : ContextWait) : ContextWait :=
  { w with woken := false, resolved := w.ready?.map (·, w.pool.now) }

/-- Whether the instant of the timer has come but the timer has not gone off. -/
def isDue (w : ContextWait) : Bool := !w.elapsed && w.context.deadline.any (· ≤ w.pool.now)

/-- The timer goes off. -/
def expire (w : ContextWait) : ContextWait := { w with elapsed := true, woken := true }

/-- Someone else works with the contexts. That wakes the wait if its token is cancelled by it. -/
def observe (w : ContextWait) (op : ContextOp) : ContextWait :=
  let pool := w.pool.apply op
  let isCancelled (p : ContextPool) : Bool := w.context.token.isCancelled p.cancelled
  { w with pool, woken := w.woken || (isCancelled pool && !isCancelled w.pool) }

def pollIfWoken (w : ContextWait) : ContextWait :=
  if w.woken && w.resolved.isNone then w.poll else w

/-- Does at once what is to be done at an instant. -/
def settle (w : ContextWait) : ContextWait :=
  if w.isDue then w.expire.pollIfWoken else w.pollIfWoken

def goTo (w : ContextWait) (now : Instant) : ContextWait := { w with pool := { w.pool with now } }

/-- Lets time pass. The instant of the timer may lie within it. -/
def pass (w : ContextWait) (ms : Nat) : ContextWait :=
  let last := w.pool.now + ms
  match w.context.deadline.filter fun deadline => w.pool.now ≤ deadline && deadline ≤ last with
  | some deadline => (w.goTo deadline).settle.goTo last
  | none => w.goTo last

def perform (w : ContextWait) : ContextOp → ContextWait
  | .advance ms => w.pass ms
  | op => (w.observe op).settle

end ContextWait

namespace ContextPool

/-- What a wait for a context brings, and when, that goes on while others work with the contexts. It is polled as
    soon as it is woken. -/
def awaitDuring (c : Context) (p : ContextPool) (ops : List ContextOp) :
    Option (Interruption × Instant) :=
  let begun : ContextWait := { context := c, pool := p }
  (ops.foldl ContextWait.perform begun.settle).resolved

/-- Waits until a context is over, at most for some time in which nothing is done. -/
def await (p : ContextPool) (c : Context) (limit : Nat) : Option Interruption × ContextPool :=
  match p.awaitDuring c [.advance limit] with
  | some (reason, now) => (some reason, { p with now })
  | none => (none, p.apply (.advance limit))

end ContextPool

end DhtStore
