namespace DhtStore

/-- A handle of a signal. Handles with one number are copies of one signal. -/
structure Signal where
  number : Nat
deriving DecidableEq

/-- The signals made so far, and those of them that fired. -/
structure SignalBoard where
  made : Nat := 0
  fired : List Signal := []

namespace SignalBoard

def make (b : SignalBoard) : Signal × SignalBoard := (⟨b.made⟩, { b with made := b.made + 1 })

/-- Fires a signal; firing it again changes nothing. -/
def fire (b : SignalBoard) (s : Signal) : SignalBoard := { b with fired := s :: b.fired }

/-- Whether a signal fired, which is also whether waiting for it ends now. -/
def isFired (b : SignalBoard) (s : Signal) : Bool := b.fired.contains s

end SignalBoard

end DhtStore
