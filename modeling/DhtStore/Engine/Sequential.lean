import DhtStore.Engine

namespace DhtStore.Sequential

structure Options where
  atEnd : AtEnd := .stall
  /-- Whether nodes that give no token count among the closest. -/
  keepSilent : Bool := false

structure Walk where
  queue : List Node := []
  answered : ClosestNodes
  stats : LookupStats := {}

namespace Walk

def next (inFlight : Nat) (w : Walk) : List Node × Walk :=
  match inFlight, w.queue with
  | 0, node :: rest =>
    ([node], { w with queue := rest, stats := { w.stats with tried := w.stats.tried + 1 } })
  | _, _ => ([], w)

def settle (options : Options) (node : Node) (report : QueryReport) (w : Walk) : Walk :=
  match report.responder with
  | some responder =>
    { w with
      answered := w.answered.add responder
      stats := { w.stats with responses := w.stats.responses + 1 } }
  | none =>
    if options.keepSilent then { w with answered := w.answered.add { node with token := none } }
    else w

end Walk

end Sequential

/-- The engine that asks each starting node in turn. It looks up from its walk only while it waits for
    an answer, and once the deadline is reached there is no waiting: it walks on to the end. -/
def Engine.sequential (options : Sequential.Options) : Engine Sequential.Walk where
  start target := { answered := .empty target }
  seed accepts nodes w := { w with queue := w.queue ++ nodes.filter accepts }
  next := Sequential.Walk.next
  settle _ := Sequential.Walk.settle options
  atEnd := options.atEnd
  overrun := Sequential.Walk.queue
  closest := Sequential.Walk.answered
  stats := Sequential.Walk.stats
  bound nodes := nodes.length

end DhtStore
