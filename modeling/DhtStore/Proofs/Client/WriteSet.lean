import DhtStore.Proofs.Client.Put
import DhtStore.Proofs.Discovery.Processing
import DhtStore.Proofs.Engine.Knowledge

namespace DhtStore

open Reader

variable {σ : Type} {w : Iterative.Width}

/-- The nodes that vouched for themselves in answers to some queries, closest to the target first. -/
structure Ranking (timeout : Nat) (target : NodeId) (queries : List Query) (ranked : List Node) : Prop where
  closest_first : ranked.Pairwise fun node other => NodeId.CloserTo target node.id other.id
  /-- Queries are processed in the order in which they end; of several answers that claim one id the first
      processed counts. -/
  first_of_id : ∃ processed : List Query, processed.Perm queries ∧
    processed.Pairwise (fun q later => q.due timeout ≤ later.due timeout) ∧
    ∀ node, node ∈ ranked ↔
      (processed.filterMap (·.responder? timeout)).find? (·.id = node.id) = some node

/-- A node of a ranking was asked at its address and sent its token from there in time. -/
theorem Ranking.vouched {timeout : Nat} {target : NodeId} {queries : List Query} {ranked : List Node}
    (hranking : Ranking timeout target queries ranked) {node : Node} (hmem : node ∈ ranked) :
    ∃ q ∈ queries, ∃ delay reply token, q.delivery = .after delay (.ok reply) ∧ delay ≤ timeout ∧
      reply.token = some token ∧
      node = { id := reply.responder.getD q.node.id, address := q.node.address, token := some token } := by
  obtain ⟨processed, hperm, -, hfirst⟩ := hranking.first_of_id
  obtain ⟨q, hq, hresponder⟩ := List.mem_filterMap.1 (List.mem_of_find?_eq_some ((hfirst node).1 hmem))
  exact ⟨q, hperm.mem_iff.1 hq, Query.responder?_eq_some_iff.1 hresponder⟩

namespace Search

variable {ρ : Type} {s : Search σ Iterative.Lookup} {read : Reader ρ} {init state : ρ} {start : Instant}
  {network : σ} {d : Discovery σ Iterative.Lookup ρ}

end Search

namespace Client

variable {c : Client σ Iterative.Lookup}

end Client

end DhtStore
