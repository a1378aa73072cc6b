import DhtStore.Proofs.Client.Duration
import DhtStore.Proofs.Client.Tasks

namespace DhtStore

open Reader

variable {σ S ρ : Type}

namespace Tasks

/-- The tasks of a call in the midst of a discovery in which the engine is waited for by no one. -/
def ofDiscovery (d : Discovery σ S ρ) : Tasks σ S ρ := { discovery := d, supervised := !d.stopped }

/-- A call has returned at some instant, having done what the history says. -/
structure Returned (t : Tasks σ S ρ) (time : Instant) (history : History) (network : σ) : Prop where
  phase : t.phase = .returned
  now : t.discovery.now = time
  history : t.discovery.history = history
  network : t.discovery.network = network

end Tasks

namespace Call

open Relation Tasks

variable {call : Call σ S ρ} {d next last : Discovery σ S ρ} {init : ρ} {now : Instant} {network : σ}

theorem foldl_ask_atEnd (s : Search σ S) (nodes : List Node) (atEnd atEndLate : Bool) :
    nodes.foldl s.ask { d with atEnd, atEndLate } = { nodes.foldl s.ask d with atEnd, atEndLate } := by
  induction nodes generalizing d with
  | nil => rfl
  | cons node nodes ih =>
    have hasked : s.ask { d with atEnd, atEndLate } node = { s.ask d node with atEnd, atEndLate } := by
      unfold Search.ask
      dsimp only
      cases s.lifetime.poll? d.now <;> rfl
    rw [List.foldl_cons, hasked, ih]
    rfl

/-- The engine begins the queries that it made one after the other. -/
theorem run_begun (hgoing : d.stopped = false) (nodes : List Node) :
    ReflTransGen call.Wakes { ofDiscovery d with wanted := nodes }
      (ofDiscovery (nodes.foldl call.search.ask d)) := by
  induction nodes generalizing d with
  | nil => exact .refl
  | cons node nodes ih =>
    have hstill : (call.search.ask d node).stopped = d.stopped := Search.stopped_foldl_ask [node]
    have hrest := ih (hstill.trans hgoing)
    refine .head (.begun hgoing (.refl _)) ?_
    rw [ofDiscovery, hstill] at hrest
    exact hrest

/-- What the engine does at once in a discovery its tasks do in turn. -/
theorem run_visit (hgoing : d.stopped = false) :
    ReflTransGen call.Wakes (call.visit (ofDiscovery d)) (ofDiscovery (call.search.advance d)) := by
  let wanted := call.search.engine.next (d.inFlight.length + d.ended.length) d.engine
  let asked := wanted.1.foldl call.search.ask { d with engine := wanted.2 }
  -- What the engine asks is in flight at once, but the tasks look for silence before they begin it.
  have hflying : asked.inFlight.isEmpty = (d.inFlight.isEmpty && wanted.1.isEmpty) := by
    have hnodes : asked.inFlight.map Flight.node = d.inFlight.map Flight.node ++ wanted.1 :=
      Search.map_node_inFlight_foldl_ask wanted.1
    rw [← List.isEmpty_map (f := Flight.node), hnodes]
    cases d.inFlight <;> cases wanted.1 <;> rfl
  have hended : asked.ended = d.ended := Search.ended_foldl_ask wanted.1
  let quiet (flying ended : Bool) : Bool := call.search.engine.atEnd ≠ .hang && flying && ended
  let late := call.search.lifetime.isOver d.now
  have hquiet : quiet asked.inFlight.isEmpty asked.ended.isEmpty =
      (quiet d.inFlight.isEmpty d.ended.isEmpty && wanted.1.isEmpty) := by
    rw [hflying, hended]
    simp only [quiet, Bool.and_assoc, Bool.and_comm wanted.1.isEmpty]
  let visited : Discovery σ S ρ :=
    { d with
      engine := wanted.2
      atEnd := quiet d.inFlight.isEmpty d.ended.isEmpty && wanted.1.isEmpty && !late
      atEndLate := quiet d.inFlight.isEmpty d.ended.isEmpty && wanted.1.isEmpty && late }
  have hadvance : call.search.advance d = wanted.1.foldl call.search.ask visited := by
    rw [foldl_ask_atEnd call.search wanted.1 (d := { d with engine := wanted.2 }), ← hquiet]
    rfl
  rw [hadvance]
  exact run_begun (d := visited) hgoing wanted.1

/-- Whatever a discovery does in a step is something that the tasks of its call can do. -/
theorem run_of_step {start : Instant} (haccounts : call.search.Accounts call.read init start network d)
    (hrunning : call.search.Running d) (hstep : call.search.Step call.read d (.going next)) :
    ReflTransGen call.Wakes (ofDiscovery d) (ofDiscovery next) := by
  have hlater := haccounts.now_le_of_step hstep
  cases hstep with
  | reading hoffered hread => exact .single (.read rfl hrunning.lasting hoffered hread)
  | reported hended => exact .head (.reported hrunning.stopped hended) (run_visit hrunning.stopped)
  | landed hflying hdue => exact .single (.landed hrunning.stopped hflying (Nat.le_of_eq hdue))
  | passed _ _ _ _ _ _ => exact .single (.passed hlater)

/-- So is whatever happens once the call is over. -/
theorem run_of_closes (hover : call.search.lifetime.isOver d.now = true) (hcloses : call.search.Closes d last) :
    ReflTransGen call.Wakes (ofDiscovery d) (ofDiscovery last) := by
  induction hcloses with
  | refl => exact .refl
  | tail hcloses hwinds ih =>
    have hstill := (Search.Kept.of_closes hover hcloses).now ▸ hover
    refine ih.trans ?_
    cases hwinds with
    | seeded hgoing hfirst => exact .head (.seeded hgoing hfirst) (run_visit hgoing)
    | reported hgoing hended => exact .head (.reported hgoing hended) (run_visit hgoing)
    | cut hgoing hflying => exact .single (.cut hgoing hflying hstill)
    | stopped hgoing => exact .single (.supervised (congrArg (!·) hgoing) (.inl hstill))

theorem run_begin : call.Reaches init now network (ofDiscovery (call.search.begin now network init)) :=
  .head (.seeded rfl rfl) (run_visit rfl)

/-- A call that is over can come to return as soon as the caller looks. -/
theorem returned_of_interrupts {reason : Interruption}
    (hinterrupts : call.search.Interrupts d (.interrupted reason) last) :
    ∃ t, ReflTransGen call.Wakes (ofDiscovery d) t ∧ t.Returned last.now last.history last.network := by
  obtain ⟨hover, -, closed, moved, hcloses, rfl⟩ := hinterrupts
  have hstill := (Search.Kept.of_closes hover hcloses).now ▸ hover
  exact ⟨_, (run_of_closes hover hcloses).tail (.interrupted rfl hstill), rfl, rfl, rfl, rfl⟩

/-- However a discovery ends, its call's tasks can come to return then, or to what is left to do. -/
theorem reaches_of_discover (call : Call σ S ρ) (hlawful : call.search.engine.Lawful) {ending : Ending ρ}
    (hdiscover : call.search.discover call.read init now network = (ending, last)) :
    match ending with
    | .resolved _ | .interrupted _ =>
      ∃ t, call.Reaches init now network t ∧ t.Returned last.now last.history last.network
    | .exhausted _ => call.Reaches init now network (call.leave (ofDiscovery last))
    | .endless => True := by
  obtain ⟨reason, rfl, hinterrupts⟩ | ⟨-, before, hrunning, ⟨-, -, hreaches⟩, hleaves, -⟩ := Search.discover_ends
    (P := fun d => call.search.Running d ∧ call.search.Accounts call.read init now network d ∧
      call.Reaches init now network (ofDiscovery d))
    hlawful (fun hlasting => ⟨.begin hlasting, .begin hlasting, run_begin⟩)
    (fun hlasting ⟨hrunning, haccounts, hreaches⟩ hstep => ⟨hrunning.step hstep, haccounts.step hlasting hstep,
      hreaches.trans (run_of_step haccounts hrunning hstep)⟩)
    hdiscover
  · exact returned_of_interrupts hinterrupts
  · cases hleaves with
    | step hstep =>
      cases hstep with
      | resolved hoffered hread =>
        exact ⟨_, hreaches.tail (.resolved rfl hrunning.lasting hoffered hread), rfl, rfl, rfl, rfl⟩
      | exhausted hoffered hatEnd =>
        exact hreaches.tail (.exhausted rfl hrunning.lasting hoffered (.inl (Bool.or_eq_true_iff.2 (.inl hatEnd))))
      | endless _ _ _ _ _ => trivial
    | waited hwaits hinterrupts =>
      have hwaited := hreaches.tail (.passed (Nat.le_of_lt hwaits.later))
      cases ending with
      | interrupted reason =>
        obtain ⟨t, hrun, hreturned⟩ := returned_of_interrupts hinterrupts
        exact ⟨t, hwaited.trans hrun, hreturned⟩
      | resolved item => cases hinterrupts.not_natural
      | exhausted state => cases hinterrupts.not_natural
      | endless => trivial

/-- Writes that are all over by some instant are waited for until then. -/
theorem run_joined {t : Tasks σ S ρ} {lifetime : Lifetime} {dues : List Instant} {finish : Instant}
    (hphase : t.phase = .writing lifetime dues) (hlater : t.discovery.now ≤ finish)
    (hdues : ∀ due ∈ dues, due ≤ finish) :
    ∃ after, ReflTransGen call.Wakes t after ∧
      after.Returned finish t.discovery.history t.discovery.network := by
  let waited : Tasks σ S ρ := { t with discovery := { t.discovery with now := finish } }
  have hwritten : ReflTransGen call.Wakes waited { waited with phase := .writing lifetime [] } := by
    have hwaited : waited = { waited with phase := .writing lifetime dues } := by
      rw [← hphase]
    rw [hwaited]
    clear hwaited hphase
    induction dues with
    | nil => exact .refl
    | cons due rest ih =>
      obtain ⟨hdue, hrest⟩ := List.forall_mem_cons.1 hdues
      exact .head (.written rfl (.refl _) hdue) (ih hrest)
  exact ⟨_, .head (.passed hlater) (hwritten.tail (.joined rfl)), rfl, rfl, rfl, rfl⟩

/-- Writes are waited for no longer than their lifetime lasts. -/
theorem run_aborted {t : Tasks σ S ρ} {lifetime : Lifetime} {dues : List Instant} {finish : Instant}
    (hphase : t.phase = .writing lifetime dues) (hlater : t.discovery.now ≤ finish)
    (hover : lifetime.isOver finish = true) :
    ∃ after, ReflTransGen call.Wakes t after ∧
      after.Returned finish t.discovery.history t.discovery.network :=
  ⟨_, .head (.passed hlater) (.single (.aborted hphase hover)), rfl, rfl, rfl, rfl⟩

end Call

namespace Client

open Relation Iterative

/-- A get as its tasks know it. There is nothing left to do when its discovery is over. -/
def getCall (c : Client σ S) (lifetime : Lifetime) (target : NodeId) (seq : Option Seq)
    (salt : Option Bytes) : Call σ S (Option MutableItem) where
  search := c.search lifetime target seq salt
  read := best
  finish _ d := { lifetime, network := d.network }

/-- When the writes of a put are over. -/
def dues (c : Client σ S) (lifetime : Lifetime) (build : Build σ) (d : Discovery σ S Seq) : List Instant :=
  FanOut.dues (FanOut.begin c.transport (lifetime.cancelledAt build.cancelAt) c.config.writeTimeout
    (c.engine.closest d.engine).writable build.item d.now build.network).slots

/-- A put as its tasks know it. When its discovery is over the item is built and sent. -/
def putCall (c : Client σ S) (lifetime : Lifetime) (target : NodeId) (salt : Option Bytes)
    (builder : Builder σ) : Call σ S Seq where
  search := c.search lifetime target none salt
  read := highestSeq
  finish seen d :=
    let build := builder seen d.now d.network
    let written := c.write lifetime build d
    { lifetime := lifetime.cancelledAt build.cancelAt
      network := written.network
      history := .built d.now seen build.item :: written.history
      dues := c.dues lifetime build d }

variable {c : Client σ S} {lifetime : Lifetime} {target : NodeId} {seq : Option Seq} {salt : Option Bytes}
  {builder : Builder σ} {now : Instant} {network : σ}

theorem gets_finish_getCall (kept : Option MutableItem) (d : Discovery σ S (Option MutableItem)) :
    ((c.getCall lifetime target seq salt).finish kept d).history.gets = [] := rfl

theorem gets_finish_putCall (seen : Seq) (d : Discovery σ S Seq) :
    ((c.putCall lifetime target salt builder).finish seen d).history.gets = [] := gets_fanOut

/-- A put that sent its item can come to return when its writes are said to be finished. -/
theorem returned_of_leave (c : Client σ S) (lifetime : Lifetime) (target : NodeId) (salt : Option Bytes)
    (builder : Builder σ) (d : Discovery σ S Seq) :
    let call := c.putCall lifetime target salt builder
    let build := builder d.reader d.now d.network
    let written := c.write lifetime build d
    ∃ t, ReflTransGen call.Wakes (call.leave (.ofDiscovery d)) t ∧
      t.Returned written.finished (d.history ++ .built d.now d.reader build.item :: written.history)
        written.network := by
  intro call build written
  let sending := lifetime.cancelledAt build.cancelAt
  let slots := (FanOut.begin c.transport sending c.config.writeTimeout (c.engine.closest d.engine).writable build.item
    d.now build.network).slots
  have hphase : (call.leave (.ofDiscovery d)).phase = .writing sending (c.dues lifetime build d) := rfl
  have hlater : d.now ≤ written.finished := le_finished
  have hwaiting : ∀ due ∈ c.dues lifetime build d, due ≤ FanOut.finish d.now slots :=
    (FanOut.finish_le_iff.1 (Nat.le_refl _)).2
  have hfinished : written.finished = sending.endsAt?.elim (FanOut.finish d.now slots)
      fun last => min (FanOut.finish d.now slots) (max d.now last) := finished_eq
  cases hends : sending.endsAt? with
  | none =>
    rw [hends] at hfinished
    exact Call.run_joined hphase hlater (hfinished ▸ hwaiting)
  | some last =>
    rw [hends, Option.elim_some] at hfinished
    obtain hle | hle := Nat.le_total (FanOut.finish d.now slots) (max d.now last)
    · rw [Nat.min_eq_left hle] at hfinished
      exact Call.run_joined hphase hlater (hfinished ▸ hwaiting)
    · rw [Nat.min_eq_right hle] at hfinished
      have hend : sending.isOver written.finished = true :=
        Lifetime.isOver_iff.2 ⟨last, hends, hfinished ▸ Nat.le_max_right d.now last⟩
      exact Call.run_aborted hphase hlater hend

/-- What a get does is something that its tasks can do. -/
theorem returned_of_get (hlawful : c.engine.Lawful) {time : Instant} {result : Except Failure Found}
    (hreturned : (c.get lifetime target seq salt now network).returned = some (time, result)) :
    ∃ t, (c.getCall lifetime target seq salt).Reaches none now network t ∧
      t.Returned time (c.get lifetime target seq salt now network).history
        (c.get lifetime target seq salt now network).network := by
  cases hdiscover : (c.search lifetime target seq salt).discover best none now network with
  | mk ending d =>
    have hreaches := Call.reaches_of_discover (c.getCall lifetime target seq salt) hlawful hdiscover
    simp only [get, hdiscover] at hreturned ⊢
    cases ending with
    | resolved item =>
      cases hreturned
      exact hreaches
    | interrupted reason =>
      cases hreturned
      exact hreaches
    | exhausted kept =>
      have htime : d.now = time := by
        cases kept <;> cases hreturned <;> rfl
      let left := (c.getCall lifetime target seq salt).leave (.ofDiscovery d)
      have hleft : left.phase = .writing lifetime [] := rfl
      have hnothing (due : Instant) (hmem : due ∈ []) : due ≤ time := absurd hmem List.not_mem_nil
      obtain ⟨t, hrun, hphase, hnow, hhistory, hnetwork⟩ :=
        Call.run_joined hleft (Nat.le_of_eq htime) hnothing
      exact ⟨t, hreaches.trans hrun, hphase, hnow, hhistory.trans (List.append_nil _), hnetwork⟩
    | endless => cases hreturned

/-- What a put does is something that its tasks can do. -/
theorem returned_of_put (hlawful : c.engine.Lawful) {time : Instant} {result : Except Failure Receipt}
    (hreturned : (c.putWith lifetime target salt builder now network).returned = some (time, result)) :
    ∃ t, (c.putCall lifetime target salt builder).Reaches 0 now network t ∧
      t.Returned time (c.putWith lifetime target salt builder now network).history
        (c.putWith lifetime target salt builder now network).network := by
  cases hdiscover : (c.search lifetime target none salt).discover highestSeq 0 now network with
  | mk ending d =>
    have hreaches := Call.reaches_of_discover (c.putCall lifetime target salt builder) hlawful hdiscover
    simp only [putWith, hdiscover] at hreturned ⊢
    cases ending with
    | resolved item => cases hreturned
    | interrupted reason =>
      cases hreturned
      exact hreaches
    | exhausted seen =>
      cases hreturned
      obtain ⟨-, -, -, -, rfl, -⟩ := Search.exhausted_spec hdiscover
      obtain ⟨t, hrun, hreturns⟩ := c.returned_of_leave lifetime target salt builder d
      exact ⟨t, hreaches.trans hrun, hreturns⟩
    | endless => cases hreturned

/-- Nothing leaks after a call. In whichever order its tasks are woken, and however late, once a get or a put
    has returned none of them sends a request nor does anything else that shows, and in a put nothing is
    asked after the item was built. All that a get and a put are said to do, up to their return, is something
    that their tasks can do, and nothing is left over. -/
theorem nothing_leaks {c : Client σ Lookup} {w : Width} (hengine : c.engine = .iterative w)
    (lifetime : Lifetime) (target : NodeId) (seq : Option Seq) (salt : Option Bytes) (builder : Builder σ)
    (now : Instant) (network : σ) :
    let get := c.get lifetime target seq salt now network
    let put := c.putWith lifetime target salt builder now network
    let getCall := c.getCall lifetime target seq salt
    let putCall := c.putCall lifetime target salt builder
    (∀ t, getCall.Reaches none now network t → t.phase = .returned →
      ∀ later, ReflTransGen getCall.Wakes t later → later.phase = .returned ∧
        later.discovery.history = t.discovery.history ∧ later.discovery.network = t.discovery.network) ∧
    (∀ t, putCall.Reaches 0 now network t → t.phase = .returned →
      ∀ later, ReflTransGen putCall.Wakes t later → later.phase = .returned ∧
        later.discovery.history = t.discovery.history ∧ later.discovery.network = t.discovery.network) ∧
    (∀ t, putCall.Reaches 0 now network t → ∀ (before after : History) time seen item,
      t.discovery.history = before ++ .built time seen item :: after → after.gets = []) ∧
    (∃ t time result, getCall.Reaches none now network t ∧ get.returned = some (time, result) ∧
      t.Returned time get.history get.network ∧ get.late = []) ∧
    ∃ t time result, putCall.Reaches 0 now network t ∧ put.returned = some (time, result) ∧
      t.Returned time put.history put.network ∧ put.late = [] := by
  intro get put getCall putCall
  have hlawful : c.engine.Lawful := hengine ▸ .iterative w
  have hlate {ρ : Type} (s : Search σ Lookup) (hs : s.engine = .iterative w) (ending : Ending ρ)
      (d : Discovery σ Lookup ρ) : s.overrun ending d = [] := by
    unfold Search.overrun
    rw [hs]
    split <;> rfl
  refine ⟨?_, ?_, ?_, ?_, ?_⟩
  · intro t hreaches hreturned later hrun
    have horderly : t.Orderly := .of_reaches gets_finish_getCall hreaches
    obtain ⟨-, hphase, hsame⟩ := horderly.quiet_of_run gets_finish_getCall (by simp [hreturned]) hrun
    exact ⟨hphase hreturned, hsame⟩
  · intro t hreaches hreturned later hrun
    have horderly : t.Orderly := .of_reaches gets_finish_putCall hreaches
    obtain ⟨-, hphase, hsame⟩ := horderly.quiet_of_run gets_finish_putCall (by simp [hreturned]) hrun
    exact ⟨hphase hreturned, hsame⟩
  · intro t hreaches before after time seen item hhistory
    have horderly : t.Orderly := .of_reaches gets_finish_putCall hreaches
    exact horderly.gets_after_built hhistory
  · cases hdiscover : (c.search lifetime target seq salt).discover best none now network with
    | mk ending d =>
      obtain ⟨result, hreturned⟩ := returned_get_of_discover hdiscover (Search.not_endless hengine hdiscover)
      obtain ⟨t, hreaches, ht⟩ := returned_of_get hlawful hreturned
      refine ⟨t, d.now, result, hreaches, hreturned, ht, ?_⟩
      simp only [get, Client.get, hdiscover]
      exact hlate _ hengine ending d
  · cases hdiscover : (c.search lifetime target none salt).discover highestSeq 0 now network with
    | mk ending d =>
      obtain ⟨time, result, hreturned, -⟩ :=
        returned_put_of_discover builder hdiscover (Search.not_endless hengine hdiscover)
      obtain ⟨t, hreaches, ht⟩ := returned_of_put hlawful hreturned
      refine ⟨t, time, result, hreaches, hreturned, ht, ?_⟩
      simp only [put, putWith, hdiscover]
      cases ending with
      | interrupted reason => exact hlate (c.search lifetime target none salt) hengine _ d
      | _ => rfl

/-- A get is cancelled while its only query is in flight, and a put writes to the node that it finds. -/
theorem nothing_leaks_lone :
    let c := Client.ofLone (.after 3 (.ok { token := some ⟨[7]⟩ }))
    let getCall := c.getCall { cancelAt := some 1 } default none none
    let putCall := c.putCall {} default none (.ofFunction fun _ => .immutable [])
    (∃ t, getCall.Reaches none 0 () t ∧ t.phase = .returned ∧ t.discovery.history.gets.length = 1 ∧
      ∀ later, ReflTransGen getCall.Wakes t later → later.discovery.history.gets.length = 1) ∧
    ∃ t, putCall.Reaches 0 0 () t ∧ t.phase = .returned ∧ t.discovery.history.puts.length = 1 ∧
      ∀ later, ReflTransGen putCall.Wakes t later → later.discovery.history.puts.length = 1 := by
  intro c getCall putCall
  constructor
  · obtain ⟨hget, -, -, ⟨t, _, _, hreaches, -, hreturned, -⟩, -⟩ :=
      nothing_leaks (c := c) (w := {}) rfl { cancelAt := some 1 } default none none
        (.ofFunction fun _ => .immutable []) 0 ()
    have hgets : t.discovery.history.gets.length = 1 := by
      rw [hreturned.history]
      decide +kernel
    refine ⟨t, hreaches, hreturned.phase, hgets, fun later hrun => ?_⟩
    rw [(hget t hreaches hreturned.phase later hrun).2.1]
    exact hgets
  · obtain ⟨-, hput, -, -, ⟨t, _, _, hreaches, -, hreturned, -⟩⟩ :=
      nothing_leaks (c := c) (w := {}) rfl {} default none none (.ofFunction fun _ => .immutable []) 0 ()
    have hputs : t.discovery.history.puts.length = 1 := by
      rw [hreturned.history]
      decide +kernel
    refine ⟨t, hreaches, hreturned.phase, hputs, fun later hrun => ?_⟩
    rw [(hput t hreaches hreturned.phase later hrun).2.1]
    exact hputs

end Client

end DhtStore
