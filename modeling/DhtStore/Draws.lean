import DhtStore.Node

namespace DhtStore

/-- The state of the generator SplitMix64. -/
structure SplitMix where
  state : UInt64

def SplitMix.next (g : SplitMix) : UInt64 × SplitMix :=
  let s := g.state + 0x9E3779B97F4A7C15
  let z := (s ^^^ (s >>> 30)) * 0xBF58476D1CE4E5B9
  let z := (z ^^^ (z >>> 27)) * 0x94D049BB133111EB
  (z ^^^ (z >>> 31), ⟨s⟩)

/-- Where random bytes come from: first what was set aside, then a seeded generator. -/
structure Draws where
  /-- Draws that come before those of the generator. -/
  queued : List (Octets 20)
  generator : SplitMix

namespace Draws

def seeded (seed : UInt64) (queued : List (Octets 20)) : Draws := ⟨queued, ⟨seed⟩⟩

/-- The next draw. One of the generator is the first 20 bytes of three outputs, each written with
    its least significant byte first. -/
def next (d : Draws) : Octets 20 × Draws :=
  match d.queued with
  | draw :: rest => (draw, { d with queued := rest })
  | [] =>
    let (x, g) := d.generator.next
    let (y, g) := g.next
    let (z, g) := g.next
    let bytes := [x, y, z].flatMap fun w => Bytes.ofNatLE 8 w.toNat
    (⟨bytes.take 20, by simp [bytes]⟩, ⟨[], g⟩)

def nextId (d : Draws) : NodeId × Draws :=
  let (draw, d) := d.next
  (⟨draw⟩, d)

/-- A node of a random id that no host runs. -/
def nextNode (d : Draws) : Node × Draws :=
  let (id, d) := d.nextId
  ({ id, address := Address.unspecified }, d)

def times {α : Type} (draw : Draws → α × Draws) : (n : Nat) → Draws → List α × Draws
  | 0, d => ([], d)
  | n + 1, d =>
    let (x, d) := draw d
    let (xs, d) := times draw n d
    (x :: xs, d)

end Draws

end DhtStore
