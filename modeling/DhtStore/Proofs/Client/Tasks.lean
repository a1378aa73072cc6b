import DhtStore.Proofs.Discovery.Endings
import Mathlib.Logic.Relation

namespace DhtStore

/-- What is left of a call once its discovery is over: the lifetime of the writes, what was done to send them, and
    when each is over. -/
structure Remainder (σ : Type) where
  lifetime : Lifetime
  network : σ
  history : History := []
  dues : List Instant := []

/-- What the tasks of a call are to do. -/
structure Call (σ S ρ : Type) where
  search : Search σ S
  read : Reader ρ
  /-- What the caller does when nothing is left to ask, with the state of its reader. -/
  finish : ρ → Discovery σ S ρ → Remainder σ

/-- How far the caller is. -/
inductive Phase
  | discovering
  | writing (lifetime : Lifetime) (dues : List Instant)
  | returned
deriving DecidableEq

/-- The state of the tasks that carry out a call: the caller, the engine with its queries, a supervisor and the
    writes. -/
structure Tasks (σ S ρ : Type) where
  discovery : Discovery σ S ρ
  /-- The nodes for which the engine made a query that has not begun. -/
  wanted : List Node := []
  /-- Whether the engine is gone, with all its queries. -/
  gone : Bool := false
  supervised : Bool := true
  phase : Phase := .discovering

namespace Call

variable {σ S ρ : Type} (call : Call σ S ρ)

/-- The tasks of a call that was just made. -/
def start (init : ρ) (now : Instant) (network : σ) : Tasks σ S ρ where
  discovery := call.search.initial now network init

/-- The engine makes the queries that it wants next. If there are none, and none that it waits for, it is at
    its end. -/
def visit (t : Tasks σ S ρ) : Tasks σ S ρ :=
  let d := t.discovery
  let next := call.search.engine.next (d.inFlight.length + d.ended.length + t.wanted.length) d.engine
  let wanted := t.wanted ++ next.1
  let atEnd := call.search.engine.atEnd ≠ .hang && d.inFlight.isEmpty && d.ended.isEmpty && wanted.isEmpty
  { t with
    wanted
    discovery := { d with
      engine := next.2
      atEnd := atEnd && !call.search.lifetime.isOver d.now
      atEndLate := atEnd && call.search.lifetime.isOver d.now } }

/-- The caller stops the engine and does what is left to do. -/
def leave (t : Tasks σ S ρ) : Tasks σ S ρ :=
  let d := t.discovery
  let rest := call.finish d.reader d
  { t with
    phase := .writing rest.lifetime rest.dues
    discovery := { d with network := rest.network, history := d.history ++ rest.history, stopped := true } }

/-- One task is woken and does what it then can, or time passes. Each acts whenever it is woken, whatever the others do
    meanwhile and however late that is. A poll of the engine is taken as atomic: the engine looks whether it was told to
    stop once in each poll, and as no other task acts before the end of the poll it is as if it looked again before each
    query that it begins in it. -/
inductive Wakes (t : Tasks σ S ρ) : Tasks σ S ρ → Prop
  | passed {later : Instant} (hlater : t.discovery.now ≤ later) :
    Wakes t { t with discovery := { t.discovery with now := later } }
  /-- The engine takes in the nodes to begin with. -/
  | seeded (hgoing : t.discovery.stopped = false) (hfirst : t.discovery.seeded = false) :
    Wakes t (call.visit { t with
      discovery := { t.discovery with
        engine := call.search.engine.seed call.search.transport.accepts
          (call.search.transport.startingNodes t.discovery.network) t.discovery.engine
        seeded := true
        moved := t.discovery.moved + 1 } })
  /-- The engine begins a query that it made, and the query looks at once whether the call is over. -/
  | begun {node : Node} {rest : List Node} (hgoing : t.discovery.stopped = false)
    (hwanted : t.wanted.Perm (node :: rest)) :
    Wakes t { t with wanted := rest, discovery := call.search.ask t.discovery node }
  /-- A query is over; however late it is woken, the item of a reply that came in time is offered. -/
  | landed {flight : Flight} {rest : List Flight} (hgoing : t.discovery.stopped = false)
    (hflying : t.discovery.inFlight.Perm (flight :: rest)) (hdue : flight.due ≤ t.discovery.now) :
    Wakes t { t with
      discovery :=
        call.search.land flight { t.discovery with inFlight := rest, moved := t.discovery.moved + 1 } }
  /-- A query is over without a result because the lifetime is. -/
  | cut {flight : Flight} {rest : List Flight} (hgoing : t.discovery.stopped = false)
    (hflying : t.discovery.inFlight.Perm (flight :: rest))
    (hover : call.search.lifetime.isOver t.discovery.now = true) :
    Wakes t { t with
      discovery := { t.discovery with
        inFlight := rest
        ended := t.discovery.ended ++ [{ flight with result := .interrupted }]
        moved := t.discovery.moved + 1 } }
  /-- A query gives up its item, which nobody took. -/
  | dropped {offer : Offer} {rest : List Offer} (hoffered : t.discovery.offered.Perm (offer :: rest)) :
    Wakes t { t with discovery := { t.discovery with offered := rest } }
  /-- The engine takes in the end of a query. -/
  | reported {flight : Flight} {rest : List Flight} (hgoing : t.discovery.stopped = false)
    (hended : t.discovery.ended.Perm (flight :: rest)) :
    Wakes t (call.visit { t with
      discovery := { t.discovery with
        engine := call.search.engine.settle call.search.transport.accepts flight.node flight.report
          t.discovery.engine
        ended := rest
        moved := t.discovery.moved + 1 } })
  /-- The engine notices that it was told to stop, and drops its queries. -/
  | gone (hstopped : t.discovery.stopped = true) :
    Wakes t { t with
      wanted := []
      gone := true
      discovery := { t.discovery with inFlight := [], ended := [], offered := [] } }
  /-- The supervisor stops the engine at the end of the lifetime or of the engine. -/
  | supervised (hsupervised : t.supervised = true)
    (hend : call.search.lifetime.isOver t.discovery.now = true ∨ t.discovery.atEnd = true) :
    Wakes t { t with
      supervised := false
      discovery := { t.discovery with stopped := true, moved := t.discovery.moved + 1 } }
  /-- The supervisor leaves once the call has returned. -/
  | released (hreturned : t.phase = .returned) : Wakes t { t with supervised := false }
  /-- The caller finds the lifetime over, whatever else it might find. -/
  | interrupted (hphase : t.phase = .discovering)
    (hover : call.search.lifetime.isOver t.discovery.now = true) :
    Wakes t { t with phase := .returned, discovery := { t.discovery with stopped := true } }
  | read {offer : Offer} {rest : List Offer} {reader : ρ} (hphase : t.phase = .discovering)
    (hlasting : call.search.lifetime.isOver t.discovery.now = false)
    (hoffered : t.discovery.offered = offer :: rest)
    (hread : call.read t.discovery.reader offer.item = .reading reader) :
    Wakes t { t with
      discovery := { Search.take offer { t.discovery with
        offered := rest
        moved := t.discovery.moved + 1 } with reader } }
  | resolved {offer : Offer} {rest : List Offer} {item : Item} (hphase : t.phase = .discovering)
    (hlasting : call.search.lifetime.isOver t.discovery.now = false)
    (hoffered : t.discovery.offered = offer :: rest)
    (hread : call.read t.discovery.reader offer.item = .resolved item) :
    Wakes t { t with
      phase := .returned
      discovery := { Search.take offer { t.discovery with
        offered := rest
        moved := t.discovery.moved + 1 } with stopped := true } }
  /-- The caller learns that nothing is left to ask, or finds that the engine is gone. -/
  | exhausted (hphase : t.phase = .discovering)
    (hlasting : call.search.lifetime.isOver t.discovery.now = false) (hoffered : t.discovery.offered = [])
    (hend : (t.discovery.atEnd || t.discovery.atEndLate) = true ∨ t.gone = true) :
    Wakes t (call.leave { t with discovery := { t.discovery with moved := t.discovery.moved + 1 } })
  /-- A write is over. -/
  | written {lifetime : Lifetime} {due : Instant} {rest dues : List Instant}
    (hphase : t.phase = .writing lifetime dues) (hdues : dues.Perm (due :: rest))
    (hdue : due ≤ t.discovery.now) :
    Wakes t { t with phase := .writing lifetime rest }
  | joined {lifetime : Lifetime} (hphase : t.phase = .writing lifetime []) :
    Wakes t { t with phase := .returned }
  /-- The writes that are not over yet are dropped. -/
  | aborted {lifetime : Lifetime} {dues : List Instant} (hphase : t.phase = .writing lifetime dues)
    (hover : lifetime.isOver t.discovery.now = true) :
    Wakes t { t with phase := .returned }

/-- The tasks of a call that began at some instant can come to be so. -/
abbrev Reaches (init : ρ) (now : Instant) (network : σ) (t : Tasks σ S ρ) : Prop :=
  Relation.ReflTransGen call.Wakes (call.start init now network) t

end Call

namespace Tasks

variable {σ S ρ : Type} {call : Call σ S ρ} {t next : Tasks σ S ρ}

/-- Who is done with the discovery has stopped the engine, before doing anything else, and what was asked was so before
    all writing. -/
structure Orderly (t : Tasks σ S ρ) : Prop where
  stopped : t.phase ≠ .discovering → t.discovery.stopped = true
  parts : ∃ reading writing, t.discovery.history = reading ++ writing ∧
    (∀ event ∈ reading, event.isWriting = false) ∧ writing.gets = [] ∧
    (t.phase = .discovering → writing = [])

namespace Orderly

theorem discovering (horderly : t.Orderly) (hgoing : t.discovery.stopped = false) : t.phase = .discovering := by
  by_contra hleft
  rw [horderly.stopped hleft] at hgoing
  cases hgoing

/-- What a task does apart from the history can upset the order only if the engine is set going again. -/
theorem of_same (horderly : t.Orderly) (hhistory : next.discovery.history = t.discovery.history)
    (hstopped : next.phase ≠ .discovering → next.discovery.stopped = true)
    (hphase : next.phase = .discovering → t.phase = .discovering) : next.Orderly where
  stopped := hstopped
  parts := by
    obtain ⟨reading, writing, hparts, hreading, hwriting, hnothing⟩ := horderly.parts
    exact ⟨reading, writing, hhistory.trans hparts, hreading, hwriting, fun h => hnothing (hphase h)⟩

/-- In the course of the discovery anything but writing may happen. -/
theorem of_concat (horderly : t.Orderly) (hphase : t.phase = .discovering) {event : Event}
    (hevent : event.isWriting = false) (hhistory : next.discovery.history = t.discovery.history ++ [event])
    (hstopped : next.phase ≠ .discovering → next.discovery.stopped = true) : next.Orderly where
  stopped := hstopped
  parts := by
    obtain ⟨reading, writing, hparts, hreading, -, hnothing⟩ := horderly.parts
    rw [hnothing hphase, List.append_nil] at hparts
    refine ⟨reading ++ [event], [], ?_, ?_, rfl, fun _ => rfl⟩
    · rw [hhistory, hparts, List.append_nil]
    · exact List.forall_mem_append.2 ⟨hreading, by simp [hevent]⟩

/-- A query that begins is asked, or the call for it dropped. -/
theorem ask (horderly : t.Orderly) (hphase : t.phase = .discovering) (node : Node) (rest : List Node) :
    Orderly { t with wanted := rest, discovery := call.search.ask t.discovery node } := by
  cases hover : call.search.lifetime.isOver t.discovery.now with
  | true =>
    rw [Search.ask_of_isOver hover]
    exact horderly.of_concat hphase rfl rfl horderly.stopped
  | false =>
    rw [Search.ask_of_lasting hover]
    exact horderly.of_concat hphase rfl rfl horderly.stopped

theorem leave (horderly : t.Orderly) (hphase : t.phase = .discovering)
    (hfinish : ∀ state d, (call.finish state d).history.gets = []) : (call.leave t).Orderly where
  stopped _ := rfl
  parts := by
    obtain ⟨reading, writing, hparts, hreading, -, hnothing⟩ := horderly.parts
    rw [hnothing hphase, List.append_nil] at hparts
    exact ⟨reading, _, congrArg (· ++ _) hparts, hreading, hfinish _ _, nofun⟩

theorem step (hfinish : ∀ state d, (call.finish state d).history.gets = []) (horderly : t.Orderly)
    (hwakes : call.Wakes t next) : next.Orderly := by
  cases hwakes with
  | passed _ | seeded _ _ | cut _ _ _ | dropped _ | reported _ _ | released _ =>
    exact horderly.of_same rfl horderly.stopped id
  | begun hgoing _ => exact horderly.ask (horderly.discovering hgoing) _ _
  | landed hgoing _ _ => exact horderly.of_concat (horderly.discovering hgoing) rfl rfl horderly.stopped
  | read hphase _ _ _ => exact horderly.of_concat hphase rfl rfl horderly.stopped
  | resolved hphase _ _ _ => exact horderly.of_concat hphase rfl rfl fun _ => rfl
  | gone hstopped => exact horderly.of_same rfl (fun _ => hstopped) id
  | supervised _ _ => exact horderly.of_same rfl (fun _ => rfl) id
  | interrupted _ _ => exact horderly.of_same rfl (fun _ => rfl) nofun
  | exhausted hphase _ _ _ =>
    have hmoved : Orderly { t with discovery := { t.discovery with moved := t.discovery.moved + 1 } } :=
      horderly.of_same rfl horderly.stopped id
    exact hmoved.leave hphase hfinish
  | written hphase _ _ | joined hphase | aborted hphase _ =>
    have hstopped : t.discovery.stopped = true := horderly.stopped (by simp [hphase])
    exact horderly.of_same rfl (fun _ => hstopped) nofun

/-- Once the caller is done with the discovery, no task does anything to the network any more. -/
theorem quiet (horderly : t.Orderly) (hleft : t.phase ≠ .discovering) (hwakes : call.Wakes t next) :
    next.phase ≠ .discovering ∧ (t.phase = .returned → next.phase = .returned) ∧
      next.discovery.history = t.discovery.history ∧ next.discovery.network = t.discovery.network := by
  have hstopped := horderly.stopped hleft
  cases hwakes with
  | passed _ | dropped _ | gone _ | supervised _ _ | released _ => exact ⟨hleft, id, rfl, rfl⟩
  | seeded hgoing _ | begun hgoing _ | landed hgoing _ _ | cut hgoing _ _ | reported hgoing _ =>
    cases hgoing.symm.trans hstopped
  | interrupted hphase _ | read hphase _ _ _ | resolved hphase _ _ _ | exhausted hphase _ _ _ =>
    exact absurd hphase hleft
  | written hphase _ _ =>
    exact ⟨nofun, fun hreturned => absurd (hphase.symm.trans hreturned) nofun, rfl, rfl⟩
  | joined _ | aborted _ _ => exact ⟨nofun, fun _ => rfl, rfl, rfl⟩

theorem start (init : ρ) (now : Instant) (network : σ) : (call.start init now network).Orderly where
  stopped hleft := absurd rfl hleft
  parts := ⟨[], [], rfl, fun _ hmem => absurd hmem List.not_mem_nil, rfl, fun _ => rfl⟩

theorem of_reaches (hfinish : ∀ state d, (call.finish state d).history.gets = []) {init : ρ} {now : Instant}
    {network : σ} (hreaches : call.Reaches init now network t) : t.Orderly := by
  induction hreaches with
  | refl => exact .start init now network
  | tail _ hwakes ih => exact ih.step hfinish hwakes

theorem quiet_of_run (hfinish : ∀ state d, (call.finish state d).history.gets = []) (horderly : t.Orderly)
    (hleft : t.phase ≠ .discovering) (hrun : Relation.ReflTransGen call.Wakes t next) :
    next.phase ≠ .discovering ∧ (t.phase = .returned → next.phase = .returned) ∧
      next.discovery.history = t.discovery.history ∧ next.discovery.network = t.discovery.network := by
  have hboth : next.Orderly ∧ next.phase ≠ .discovering ∧ (t.phase = .returned → next.phase = .returned) ∧
      next.discovery.history = t.discovery.history ∧ next.discovery.network = t.discovery.network := by
    induction hrun with
    | refl => exact ⟨horderly, hleft, id, rfl, rfl⟩
    | tail _ hwakes ih =>
      obtain ⟨horder, hphase, hreturned, hhistory, hnetwork⟩ := ih
      obtain ⟨hphase', hreturned', hhistory', hnetwork'⟩ := horder.quiet hphase hwakes
      exact ⟨horder.step hfinish hwakes, hphase', fun h => hreturned' (hreturned h),
        hhistory'.trans hhistory, hnetwork'.trans hnetwork⟩
  exact hboth.2

/-- What was built was so after all that was asked. -/
theorem gets_after_built (horderly : t.Orderly) {before later : History} {time : Instant} {seen : Seq}
    {item : Item} (hhistory : t.discovery.history = before ++ .built time seen item :: later) :
    later.gets = [] := by
  obtain ⟨reading, writing, hparts, hreading, hwriting, -⟩ := horderly.parts
  rw [hhistory] at hparts
  obtain ⟨rest, rfl, hrest⟩ | ⟨rest, rfl, hrest⟩ := List.append_eq_append_iff.1 hparts
  · cases rest with
    | nil =>
      rw [List.nil_append] at hrest
      rw [← hrest] at hwriting
      exact hwriting
    | cons event rest =>
      cases (List.cons.inj hrest).1
      exact absurd (hreading (.built time seen item) (by simp)) nofun
  · rw [hrest, History.gets_append] at hwriting
    exact (List.append_eq_nil_iff.1 hwriting).2

end Orderly

end Tasks

end DhtStore
