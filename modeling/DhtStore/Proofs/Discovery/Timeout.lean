import DhtStore.Discovery

namespace DhtStore

variable {σ S ρ : Type}

/-- An answer that comes later than a query waits for it might as well not come. -/
def Delivery.cutOff {α : Type} (timeout : Nat) : Delivery α → Delivery α
  | .after delay answer => if timeout < delay then .never else .after delay answer
  | .never => .never

/-- A network as those see it who wait for the answer to a get no longer than some time. -/
def Transport.cutOff (t : Transport σ) (timeout : Nat) : Transport σ :=
  { t with get := fun now address request network =>
      let sent := t.get now address request network
      (sent.1.cutOff timeout, sent.2) }

theorem Flight.depart_cutOff (start timeout : Nat) (node : Node) (delivery : Delivery GetReply) :
    depart start timeout node (delivery.cutOff timeout) = depart start timeout node delivery := by
  cases delivery with
  | never => rfl
  | after delay answer =>
    by_cases hlate : timeout < delay
    · simp [Delivery.cutOff, depart, hlate]
    · simp [Delivery.cutOff, hlate]

namespace Search

def cutOff (s : Search σ S) : Search σ S := { s with transport := s.transport.cutOff s.timeout }

variable (s : Search σ S) (read : Reader ρ)

theorem ask_cutOff : s.cutOff.ask = (s.ask : Discovery σ S ρ → Node → Discovery σ S ρ) := by
  funext d node
  unfold ask
  simp only [cutOff, Transport.cutOff, Flight.depart_cutOff]
  rfl

theorem advance_cutOff : s.cutOff.advance = (s.advance : Discovery σ S ρ → Discovery σ S ρ) := by
  funext d
  unfold advance
  rw [ask_cutOff]
  rfl

theorem perform_cutOff : s.cutOff.perform read = s.perform read := by
  funext d move
  cases move with
  | seed =>
    unfold perform seed
    rw [advance_cutOff]
    rfl
  | report flight rest =>
    unfold perform resume
    rw [advance_cutOff]
    rfl
  | _ => rfl

theorem step_cutOff : s.cutOff.step read = s.step read := by
  funext d
  unfold step
  rw [perform_cutOff]
  rfl

theorem run_cutOff (fuel : Nat) (d : Discovery σ S ρ) : s.cutOff.run read fuel d = s.run read fuel d := by
  induction fuel generalizing d with
  | zero => rfl
  | succ fuel ih =>
    simp only [run, step_cutOff]
    cases s.step read d with
    | ended ending d => rfl
    | going next => exact ih next

/-- What comes too late has no influence at all: neither on the events of a discovery nor on its end. -/
theorem discover_cutOff (reader : ρ) (now : Instant) (network : σ) :
    s.cutOff.discover read reader now network = s.discover read reader now network := run_cutOff ..

end Search

end DhtStore
