import DhtStore.Proofs.Discovery.Processing
import DhtStore.Proofs.Engine.Convergence
import DhtStore.ScriptedNetwork

namespace DhtStore

open Iterative

variable {w : Width}

namespace Search

variable {σ ρ : Type} {s : Search σ Lookup} {network : σ} {d : Discovery σ Lookup ρ} {c : Course Lookup}
  {processed : List Query}

/-- What a discovery that stalled has heard of: the nodes that it began with, and those that the replies
    named, in the order in which these were processed. -/
def heard (s : Search σ Lookup) (network : σ) (processed : List Query) : List Node :=
  s.transport.startingNodes network ++ processed.flatMap fun q => (q.report s.timeout).closer

theorem Stalled.hears (hengine : s.engine = .iterative w) (hstalled : s.Stalled network d c processed) :
    (Engine.iterative w).Hears s.transport.accepts s.target c (s.heard network processed) := by
  have hhears := hstalled.pursues.hears
  rw [hstalled.reports, List.flatMap_map, hengine] at hhears
  exact hhears

end Search

/-- A lookup that waits for nothing has converged, whatever the nodes replied and in whichever order. So has
    a discovery once its engine is at its end: no query is in flight, and it has converged on what it heard
    of from the nodes that it began with and from all replies. -/
theorem Iterative.converged_at_stall (halpha : 0 < w.alpha) :
    (∀ accepts target c heard, (Engine.iterative w).Hears accepts target c heard → c.inFlight = [] →
      (∀ node, node ∈ heard ↔ node ∈ c.seeds ∨ ∃ entry ∈ c.reports, node ∈ entry.2.closer) ∧
        Converged w accepts target heard c) ∧
    ∀ {σ ρ : Type} (s : Search σ Lookup) (read : Reader ρ) (init : ρ) (start : Instant) (network : σ)
      (ending : Ending ρ) (last : Discovery σ Lookup ρ), s.engine = .iterative w →
      s.discover read init start network = (ending, last) → last.atEnd = true →
      last.inFlight = [] ∧ last.ended = [] ∧ ∃ c processed, s.Stalled network last c processed ∧
        Converged w s.transport.accepts s.target (s.heard network processed) c := by
  constructor
  · exact fun accepts target c heard hhears hquiet =>
      ⟨hhears.mem_iff, converged_of_hears halpha hhears hquiet⟩
  · intro σ ρ s read init start network ending last hengine hdiscover hatEnd
    obtain ⟨hflying, hended, c, processed, hstalled⟩ := Search.stalled_of_discover hdiscover hatEnd
    exact ⟨hflying, hended, c, processed, hstalled,
      converged_of_hears halpha (hstalled.hears hengine) hstalled.quiet⟩

/-- A node names another, which does not answer in time. -/
theorem Iterative.converged_at_stall_of_silent :
    let entry : Node := ⟨default, Address.ofV4 10 0 0 1 6881, none⟩
    let silent : Node := ⟨⟨Octets.ofPadded [1]⟩, Address.ofV4 10 0 0 2 6881, none⟩
    let network : ScriptedNetwork :=
      { nodes := [⟨entry.address, [.after 3 (.ok { nodes := [silent] })], []⟩, ⟨silent.address, [.never], []⟩]
        start := [entry] }
    let s : Search Unit Lookup :=
      { transport := network.transport 0, engine := .iterative {}, timeout := 5, lifetime := {}
        target := default, seq := none, salt := none }
    ∃ last : Discovery Unit Lookup (Option MutableItem), last.now = 8 ∧ last.inFlight = [] ∧
      ∃ c processed, s.Stalled () last c processed ∧
        Converged {} s.transport.accepts s.target (s.heard () processed) c := by
  intro entry silent network s
  have hnow : (s.discover Reader.best none 0 ()).2.now = 8 := by decide +kernel
  have hatEnd : (s.discover Reader.best none 0 ()).2.atEnd = true := by decide +kernel
  cases hdiscover : s.discover Reader.best none 0 () with
  | mk ending last =>
    rw [hdiscover] at hnow hatEnd
    obtain ⟨hflying, -, hconverged⟩ := (converged_at_stall (w := {}) (by decide)).2 s Reader.best none 0 ()
      ending last rfl hdiscover hatEnd
    exact ⟨last, hnow, hflying, hconverged⟩

end DhtStore
