import DhtStore.Proofs.Client.Get
import DhtStore.Proofs.Discovery.Timing
import DhtStore.Proofs.Reconciliation.Best

namespace DhtStore

open Reader

variable {σ S ρ : Type}

/-- What the reader of a discovery came to, if this ended of itself. -/
def Ending.verdict? : Ending ρ → Option (Verdict ρ)
  | .resolved item => some (.resolved item)
  | .exhausted state => some (.reading state)
  | _ => none

namespace Search

variable {s : Search σ S} {read : Reader ρ} {init : ρ} {start : Instant} {network : σ}
  {last : Discovery σ S ρ} {ending : Ending ρ} {verdict : Verdict ρ}

/-- A discovery that ends of itself ends with what its reader makes of the items read, and no item is read
    after one that resolves the search. -/
theorem readAll_of_discover (hdiscover : s.discover read init start network = (ending, last))
    (hverdict : ending.verdict? = some verdict) :
    let items := last.history.reads.map fun entry => entry.2.2
    readAll read init items = verdict ∧ unread read init items = [] := by
  obtain ⟨-, rfl | ⟨_, -, rfl⟩, -⟩ | ⟨rfl, _⟩ | ⟨before, hleaves, haccounts, _⟩ := discover_accounts hdiscover
  · cases hverdict
  · cases hverdict
  · cases hverdict
  · cases hleaves with
    | waited _ hinterrupts =>
      obtain ⟨-, rfl | ⟨_, -, rfl⟩, -⟩ := hinterrupts <;> cases hverdict
    | step hstep =>
      cases hstep with
      | @resolved offer rest item _ hread =>
        cases hverdict
        have hreads : (before.history ++ [Event.read before.now offer.node offer.item]).reads.map
            (fun entry => entry.2.2) = (before.history.reads.map fun entry => entry.2.2) ++ [offer.item] := by
          simp [Event.read?]
        obtain ⟨hall, hunread⟩ := readAll_append haccounts.reader [offer.item]
        change readAll read init ((before.history ++ [_]).reads.map _) = _ ∧
          unread read init ((before.history ++ [_]).reads.map _) = []
        rw [hreads, hall, hunread]
        simp [readAll, unread, hread]
      | exhausted _ _ =>
        cases hverdict
        have hnothing := readAll_append haccounts.reader []
        rw [List.append_nil] at hnothing
        exact hnothing
      | endless _ _ _ _ _ => cases hverdict

end Search

namespace Client

variable {c : Client σ S} {lifetime : Lifetime} {target : NodeId} {seq : Option Seq}
  {salt : Option Bytes} {now : Instant} {network : σ}

/-- A get that nothing cuts short returns what its items come to. -/
theorem get_reconciles (hlawful : c.engine.Lawful) (hatEnd : c.engine.atEnd ≠ .hang)
    (hforever : lifetime.endsAt? = none) :
    let get := c.get lifetime target seq salt now network
    let items := get.history.reads.map fun entry => entry.2.2
    unread best none items = [] ∧ ∃ time result, get.returned = some (time, result) ∧
      result.map Found.item = (reconcile items).elim (.error .notFound) .ok := by
  intro get items
  cases hdiscover : (c.search lifetime target seq salt).discover best none now network with
  | mk ending d =>
    have hnatural := Search.natural_of_forever hlawful hatEnd hforever hdiscover
    have hitems : items = d.history.reads.map fun entry => entry.2.2 := by
      rw [← history_get hdiscover]
    cases ending with
    | resolved item =>
      obtain ⟨hread, hunread⟩ := Search.readAll_of_discover hdiscover rfl
      refine ⟨hitems ▸ hunread, d.now, .ok ⟨item, c.engine.stats d.engine⟩, ?_, ?_⟩
      · simp only [get, Client.get, hdiscover]
        rfl
      · rw [hitems, reconcile, hread]
        rfl
    | exhausted kept =>
      obtain ⟨hread, hunread⟩ := Search.readAll_of_discover hdiscover rfl
      refine ⟨hitems ▸ hunread, ?_⟩
      rw [hitems, reconcile, hread]
      simp only [get, Client.get, hdiscover]
      cases kept <;> exact ⟨_, _, rfl, rfl⟩
    | interrupted reason => cases hnatural
    | endless => cases hnatural

/-- Of a sequence of items the first immutable one is found, whatever mutable ones come before it, and
    nothing after it is read. Of mutable items only, the last of those with the highest sequence number is
    found, and of none at all nothing. So the order of mutable items bears on the result only if several of
    them share the highest number, and never on its number. It makes no difference whether this number is
    kept beside the item, nor with which number the search starts. A get that nothing cuts short finds what
    the items that it read come to, and leaves none unread that it took. -/
theorem first_immutable_or_latest_highest :
    (∀ items : List Item,
      (∀ earlier value later, items = earlier ++ .immutable value :: later →
        (∀ item ∈ earlier, item.isMutable = true) →
          reconcile items = some (.immutable value) ∧ unread best none items = later) ∧
      ((∀ item ∈ items, item.isMutable = true) → unread best none items = [] ∧
        ∀ item, reconcile items = some (.mutable item) ↔ LatestHighest items item) ∧
      (reconcile items = none ↔ items = []) ∧
      (∀ others, items.Perm others → items.filter (!·.isMutable) = others.filter (!·.isMutable) →
        (reconcile items = none ↔ reconcile others = none) ∧
          ∀ found, reconcile items = some found → ∃ other, reconcile others = some other ∧
            other.seq? = found.seq? ∧
            (found.isMutable = false ∨ (items.filter (·.seq? = found.seq?)).length = 1 →
              other = found)) ∧
      ∀ first, readAll tracked ⟨none, first⟩ items = (readAll best none items).map (.ofKept first)) ∧
    ∀ {σ S : Type} (c : Client σ S) (lifetime : Lifetime) (target : NodeId) (seq : Option Seq)
      (salt : Option Bytes) (now : Instant) (network : σ),
      c.engine.Lawful → c.engine.atEnd ≠ .hang → lifetime.endsAt? = none →
        let get := c.get lifetime target seq salt now network
        let items := get.history.reads.map fun entry => entry.2.2
        unread best none items = [] ∧ ∃ time result, get.returned = some (time, result) ∧
          result.map Found.item = (reconcile items).elim (.error .notFound) .ok := by
  refine ⟨fun items => ⟨?_, ?_, reconcile_eq_none_iff, ?_, ?_⟩, ?_⟩
  · rintro earlier value later rfl hmutable
    exact ⟨reconcile_of_immutable hmutable, (readAll_best_of_immutable hmutable).2⟩
  · intro hmutable
    obtain ⟨-, -, hunread, -⟩ := readAll_best_of_mutable hmutable
    exact ⟨hunread, fun item => reconcile_eq_mutable_iff hmutable⟩
  · exact fun others hperm hkept => reconcile_of_reordered hperm hkept
  · exact fun first => readAll_tracked items first none
  · intro σ S c lifetime target seq salt now network hlawful hatEnd hforever
    exact get_reconciles hlawful hatEnd hforever

/-- Of three items the second is the latest with the highest number, though one has the lowest there is. -/
theorem first_immutable_or_latest_highest_lone :
    let item (seq : Seq) (value : Bytes) : MutableItem := .ofSigned default default value seq none
    let items : List Item :=
      [.mutable (item 7 [1]), .mutable (item 7 [2]), .mutable (item Int64.minValue [3])]
    let c := Client.ofLone (.after 3 (.ok (.ofMutable .sample)))
    reconcile items = some (.mutable (item 7 [2])) ∧ LatestHighest items (item 7 [2]) ∧
      reconcile (.immutable [] :: items) = some (.immutable []) ∧
      ∃ time found, (c.get {} MutableItem.sample.target none none 0 ()).returned = some (time, .ok found) ∧
        found.item = .mutable .sample := by
  intro item items c
  obtain ⟨hsequences, hget⟩ := first_immutable_or_latest_highest
  have hitems : reconcile items = some (.mutable (item 7 [2])) := by decide +kernel
  have hmutable : ∀ item ∈ items, item.isMutable = true := by decide +kernel
  refine ⟨hitems, (((hsequences items).2.1 hmutable).2 _).1 hitems,
    ((hsequences _).1 [] [] items rfl nofun).1, ?_⟩
  obtain ⟨-, time, result, hreturned, hresult⟩ := hget c {} MutableItem.sample.target none none 0 ()
    (.iterative {}) (by decide) rfl
  have hread : reconcile ((c.get {} MutableItem.sample.target none none 0 ()).history.reads.map
      fun entry => entry.2.2) = some (.mutable .sample) := by
    decide +kernel
  rw [hread] at hresult
  cases result with
  | error failure => cases hresult
  | ok found => exact ⟨time, found, hreturned, Except.ok.inj hresult⟩

end Client

end DhtStore
