import DhtStore.Proofs.Discovery.Course
import DhtStore.Proofs.Engine.Convergence

namespace DhtStore

/-- What an engine learns from a query: nothing if no reply came. -/
def QueryReport.ofReply? (asked : Node) : Option GetReply → QueryReport
  | none => {}
  | some reply => reply.report asked

theorem QueryReport.isSome_responder_ofReply? (asked : Node) (reply? : Option GetReply) :
    (ofReply? asked reply?).responder.isSome = (reply?.bind GetReply.token).isSome := by
  cases reply? with
  | none => rfl
  | some reply => exact Option.isSome_map

theorem QueryReport.mem_closer_ofReply? {asked node : Node} {reply? : Option GetReply} :
    node ∈ (ofReply? asked reply?).closer ↔ ∃ reply, reply? = some reply ∧ node ∈ reply.nodes := by
  cases reply? with
  | none => simp [ofReply?]
  | some reply => simp [ofReply?, GetReply.report]

/-- A responder has the token that it issued. -/
theorem QueryReport.isSome_token_of_ofReply? {asked responder : Node} {reply? : Option GetReply}
    (hresponder : (ofReply? asked reply?).responder = some responder) : responder.token.isSome = true := by
  cases reply? with
  | none => cases hresponder
  | some reply =>
    obtain ⟨token, -, rfl⟩ := Option.map_eq_some_iff.1 hresponder
    rfl

inductive LookupEvent
  | given (nodes : List Node)
  | asked (node : Node)
  /-- A query is over, with the reply if there is one. -/
  | settled (node : Node) (reply? : Option GetReply)

namespace LookupEvent

def seeds : LookupEvent → List Node
  | given nodes => nodes
  | _ => []

def asked? : LookupEvent → Option Node
  | asked node => some node
  | _ => none

def entry? : LookupEvent → Option (Node × QueryReport)
  | settled node reply? => some (node, .ofReply? node reply?)
  | _ => none

def token? : LookupEvent → Option WriteToken
  | settled _ reply? => reply?.bind GetReply.token
  | _ => none

/-- The lookup hears of a node: it is given the node, or a reply names it. -/
def Names : LookupEvent → Node → Prop
  | given nodes, node => node ∈ nodes
  | asked _, _ => False
  | settled _ reply?, node => ∃ reply, reply? = some reply ∧ node ∈ reply.nodes

end LookupEvent

/-- The events of a lookup, in the order in which they happen. -/
abbrev LookupLog := List LookupEvent

namespace LookupLog

variable (log later : LookupLog)

def seeds : List Node := log.flatMap LookupEvent.seeds

/-- The nodes that are asked, in this order. -/
def asked : List Node := log.filterMap LookupEvent.asked?

/-- The queries that are over, each with the node that was asked. -/
def entries : List (Node × QueryReport) := log.filterMap LookupEvent.entry?

def tokens : List WriteToken := log.filterMap LookupEvent.token?

@[simp] theorem seeds_append : seeds (log ++ later) = seeds log ++ seeds later := List.flatMap_append

@[simp] theorem asked_append : asked (log ++ later) = asked log ++ asked later := List.filterMap_append

@[simp] theorem entries_append : entries (log ++ later) = entries log ++ entries later :=
  List.filterMap_append

@[simp] theorem seeds_map_asked (nodes : List Node) : seeds (nodes.map .asked) = [] := by
  simp [seeds, LookupEvent.seeds]

@[simp] theorem asked_map_asked (nodes : List Node) : asked (nodes.map .asked) = nodes := by
  simp [asked, LookupEvent.asked?, Function.comp_def]

@[simp] theorem entries_map_asked (nodes : List Node) : entries (nodes.map .asked) = [] := by
  simp [entries, LookupEvent.entry?]

variable {log} in
theorem mem_entries_iff {entry : Node × QueryReport} :
    entry ∈ log.entries ↔
      ∃ node reply?, .settled node reply? ∈ log ∧ (node, .ofReply? node reply?) = entry := by
  rw [entries, List.mem_filterMap]
  constructor
  · rintro ⟨event, hevent, hentry⟩
    cases event with
    | settled node reply? => exact ⟨node, reply?, hevent, Option.some.inj hentry⟩
    | _ => cases hentry
  · rintro ⟨node, reply?, hevent, rfl⟩
    exact ⟨_, hevent, rfl⟩

/-- A reply counts as a response exactly if it brings a token. -/
theorem length_tokens : log.tokens.length = (log.entries.filterMap fun entry => entry.2.responder).length := by
  rw [tokens, entries, List.filterMap_filterMap, List.length_filterMap_eq_countP,
    List.length_filterMap_eq_countP]
  refine List.countP_congr fun event _ => ?_
  cases event with
  | given nodes => rfl
  | asked node => rfl
  | settled node reply? => exact Bool.eq_iff_iff.1 (QueryReport.isSome_responder_ofReply? node reply?).symm

end LookupLog

variable {S : Type} {e : Engine S} {accepts : Node → Bool} {target : NodeId}

/-- The courses of a lookup, event by event, each with its log. The engine may be told at any time to ask. -/
inductive Engine.Logs (e : Engine S) (accepts : Node → Bool) (target : NodeId) :
    Course S → LookupLog → Prop
  | start : Logs e accepts target { state := e.start target } []
  | ask {c : Course S} {log : LookupLog} : Logs e accepts target c log →
    Logs e accepts target (c.ask e) (log ++ (e.next c.inFlight.length c.state).1.map .asked)
  | seed {c : Course S} {log : LookupLog} (nodes : List Node) : Logs e accepts target c log →
    Logs e accepts target (c.seed e accepts nodes) (log ++ [.given nodes])
  | settle {c : Course S} {log : LookupLog} {node : Node} {others : List Node} (reply? : Option GetReply) :
    Logs e accepts target c log → c.inFlight.Perm (node :: others) →
      Logs e accepts target (c.settle e accepts node (.ofReply? node reply?) others)
        (log ++ [.settled node reply?])

/-- What a log tells of a course. -/
structure Course.Logged (c : Course S) (log : LookupLog) : Prop where
  seeds : c.seeds = log.seeds
  asked : c.asked = log.asked
  reports : c.reports = log.entries
  inFlight : c.asked.Perm (c.reports.map Prod.fst ++ c.inFlight)

namespace Course.Logged

variable {c : Course S} {log : LookupLog}

theorem ask (hlogged : c.Logged log) :
    (c.ask e).Logged (log ++ (e.next c.inFlight.length c.state).1.map .asked) where
  seeds := by
    rw [LookupLog.seeds_append, LookupLog.seeds_map_asked, List.append_nil]
    exact hlogged.seeds
  asked := by rw [Course.asked_ask, hlogged.asked, LookupLog.asked_append, LookupLog.asked_map_asked]
  reports := by
    rw [LookupLog.entries_append, LookupLog.entries_map_asked, List.append_nil]
    exact hlogged.reports
  inFlight := by
    rw [Course.asked_ask]
    refine (hlogged.inFlight.append_right _).trans ?_
    rw [List.append_assoc]
    exact .refl _

theorem seed (hlogged : c.Logged log) (nodes : List Node) :
    (c.seed e accepts nodes).Logged (log ++ [.given nodes]) where
  seeds := by
    change c.seeds ++ nodes = _
    rw [LookupLog.seeds_append, hlogged.seeds]
    exact congrArg _ (List.append_nil nodes).symm
  asked := by
    rw [LookupLog.asked_append]
    exact hlogged.asked.trans (List.append_nil _).symm
  reports := by
    rw [LookupLog.entries_append]
    exact hlogged.reports.trans (List.append_nil _).symm
  inFlight := hlogged.inFlight

theorem settle (hlogged : c.Logged log) {node : Node} {others : List Node} (reply? : Option GetReply)
    (hflying : c.inFlight.Perm (node :: others)) :
    (c.settle e accepts node (.ofReply? node reply?) others).Logged (log ++ [.settled node reply?]) where
  seeds := by
    rw [LookupLog.seeds_append]
    exact hlogged.seeds.trans (List.append_nil _).symm
  asked := by
    rw [LookupLog.asked_append]
    exact hlogged.asked.trans (List.append_nil _).symm
  reports := by
    rw [LookupLog.entries_append, ← hlogged.reports]
    rfl
  inFlight := by
    refine hlogged.inFlight.trans ((hflying.append_left _).trans ?_)
    change (_ ++ node :: others).Perm ((c.reports ++ [_]).map Prod.fst ++ others)
    rw [List.map_append, List.append_assoc]
    exact .refl _

theorem balance (hlogged : c.Logged log) : log.asked.Perm (log.entries.map Prod.fst ++ c.inFlight) := by
  have hflying := hlogged.inFlight
  rwa [hlogged.asked, hlogged.reports] at hflying

theorem length_asked (hlogged : c.Logged log) :
    log.asked.length = log.entries.length + c.inFlight.length := by
  rw [hlogged.balance.length_eq, List.length_append, List.length_map]

/-- Where a lookup heard of a node is on the log. -/
theorem exists_names (hlogged : c.Logged log) {node : Node}
    (hheard : node ∈ c.seeds ∨ ∃ entry ∈ c.reports, node ∈ entry.2.closer) :
    ∃ event ∈ log, event.Names node := by
  rw [hlogged.seeds, hlogged.reports] at hheard
  obtain hseed | ⟨entry, hentry, hcloser⟩ := hheard
  · obtain ⟨event, hevent, hmem⟩ := List.mem_flatMap.1 hseed
    cases event with
    | given nodes => exact ⟨_, hevent, hmem⟩
    | _ => cases hmem
  · obtain ⟨asked, reply?, hevent, rfl⟩ := LookupLog.mem_entries_iff.1 hentry
    exact ⟨_, hevent, QueryReport.mem_closer_ofReply?.1 hcloser⟩

end Course.Logged

namespace Engine.Logs

variable {c : Course S} {log : LookupLog}

theorem logged (hlogs : e.Logs accepts target c log) : c.Logged log := by
  induction hlogs with
  | start => exact ⟨rfl, rfl, rfl, .nil⟩
  | ask _ ih => exact ih.ask
  | seed nodes _ ih => exact ih.seed nodes
  | settle reply? _ hflying ih => exact ih.settle reply? hflying

/-- What asking, seeding and settling keep holds throughout. -/
theorem invariant {I : Course S → Prop} (hlogs : e.Logs accepts target c log)
    (hstart : I { state := e.start target }) (hask : ∀ c, I c → I (c.ask e))
    (hseed : ∀ c nodes, I c → I (c.seed e accepts nodes))
    (hsettle : ∀ (c : Course S) node report others, c.inFlight.Perm (node :: others) → I c →
      I (c.settle e accepts node report others)) : I c := by
  induction hlogs with
  | start => exact hstart
  | ask _ ih => exact hask _ ih
  | seed nodes _ ih => exact hseed _ nodes ih
  | settle reply? _ hflying ih => exact hsettle _ _ _ _ hflying ih

end Engine.Logs

/-- A course has a log if its reports are those that replies make. -/
theorem Engine.Reaches.exists_log {c : Course S} (hreach : e.Reaches accepts target c)
    (hreplies : ∀ entry ∈ c.reports, ∃ reply?, entry.2 = .ofReply? entry.1 reply?) :
    ∃ log, e.Logs accepts target c log := by
  induction hreach with
  | start => exact ⟨_, .start⟩
  | seed nodes _ ih =>
    obtain ⟨log, hlogs⟩ := ih hreplies
    exact ⟨_, (hlogs.seed nodes).ask⟩
  | @settle c node others report _ hflying ih =>
    obtain ⟨log, hlogs⟩ := ih fun entry hentry => hreplies entry (List.mem_append_left _ hentry)
    obtain ⟨reply?, hreply⟩ := hreplies (node, report) (List.mem_append_right _ (List.mem_singleton_self _))
    obtain rfl : report = .ofReply? node reply? := hreply
    exact ⟨_, (hlogs.settle reply? hflying).ask⟩

/-- The reports of a discovery are those that replies make. -/
theorem Search.Follows.reports_of_replies {σ ρ : Type} {s : Search σ S} {network : σ} {d : Discovery σ S ρ}
    {c : Course S} (hfollows : s.Follows network d c) :
    ∀ entry ∈ c.reports, ∃ reply?, entry.2 = .ofReply? entry.1 reply? := by
  intro entry hentry
  obtain ⟨flight, -, rfl⟩ := List.mem_map.1 (hfollows.reports.subset (List.mem_append_left _ hentry))
  change ∃ reply?, flight.report = .ofReply? flight.node reply?
  unfold Flight.report
  split
  · next reply inTime _ => exact ⟨some reply, rfl⟩
  · exact ⟨none, rfl⟩

namespace Iterative

variable {w : Width} {c : Course Lookup} {log : LookupLog}

/-- At no point of a log are more than `alpha` queries begun and not over. -/
def WithinSlots (alpha : Nat) (log : LookupLog) : Prop :=
  ∀ earlier : LookupLog, earlier <+: log → earlier.asked.length ≤ earlier.entries.length + alpha

theorem WithinSlots.append {alpha : Nat} {events : LookupLog} (hwithin : WithinSlots alpha log)
    (hroom : log.asked.length + events.asked.length ≤ log.entries.length + alpha) :
    WithinSlots alpha (log ++ events) := by
  rintro earlier ⟨later, hlog⟩
  obtain ⟨rest, rfl, -⟩ | ⟨first, rfl, hevents⟩ := List.append_eq_append_iff.1 hlog
  · exact hwithin earlier ⟨rest, rfl⟩
  · have hfirst : (LookupLog.asked first).length ≤ events.asked.length := by
      rw [hevents, LookupLog.asked_append, List.length_append]
      exact Nat.le_add_right _ _
    rw [LookupLog.asked_append, LookupLog.entries_append, List.length_append, List.length_append]
    omega

/-- A node is asked only if it is accepted, and only after the lookup heard of it. -/
def Sourced (accepts : Node → Bool) (log : LookupLog) : Prop :=
  ∀ before node after, log = before ++ .asked node :: after →
    accepts node = true ∧ ∃ event ∈ before, event.Names node

theorem Sourced.concat (hsourced : Sourced accepts log) {event : LookupEvent}
    (hevent : ∀ node, event ≠ .asked node) : Sourced accepts (log ++ [event]) := by
  intro before node after hlog
  obtain ⟨mid, -, hsingle⟩ | ⟨rest, hold⟩ := append_eq_append_cons hlog
  · have hmem : .asked node ∈ [event] := hsingle ▸ List.mem_append_right _ (List.mem_cons_self ..)
    exact absurd (List.mem_singleton.1 hmem).symm (hevent node)
  · exact hsourced before node rest hold

theorem Sourced.ask (hsourced : Sourced accepts log) {nodes : List Node}
    (hnodes : ∀ node ∈ nodes, accepts node = true ∧ ∃ event ∈ log, event.Names node) :
    Sourced accepts (log ++ nodes.map .asked) := by
  intro before node after hlog
  obtain ⟨mid, rfl, hbatch⟩ | ⟨rest, hold⟩ := append_eq_append_cons hlog
  · have hmem : .asked node ∈ nodes.map LookupEvent.asked :=
      hbatch ▸ List.mem_append_right _ (List.mem_cons_self ..)
    obtain ⟨asked, hasked, heq⟩ := List.mem_map.1 hmem
    cases heq
    obtain ⟨haccepts, event, hevent, hnames⟩ := hnodes node hasked
    exact ⟨haccepts, event, List.mem_append_left _ hevent, hnames⟩
  · exact hsourced before node rest hold

theorem Lookup.length_next_le (l : Lookup) (inFlight : Nat) : (l.next w inFlight).1.length ≤ w.alpha - inFlight :=
  List.length_take_le ..

/-- What holds of a lookup and its log at all times. -/
structure Safe (w : Width) (accepts : Node → Bool) (c : Course Lookup) (log : LookupLog) : Prop where
  inFlight : c.inFlight.length ≤ w.alpha
  /-- What is in flight was asked and is not over. -/
  balance : log.asked.Perm (log.entries.map Prod.fst ++ c.inFlight)
  slots : WithinSlots w.alpha log
  sourced : Sourced accepts log
  tried : c.state.stats.tried = log.asked.length
  responses : c.state.stats.responses = log.tokens.length
  responses_le : c.state.stats.responses ≤ c.state.stats.tried
  responders_ids : (c.state.responders.nodes.map Node.id).Nodup
  responders_tokens : ∀ node ∈ c.state.responders.nodes, node.token.isSome = true
  responders_le : c.state.responders.nodes.length ≤ c.state.stats.responses

end Iterative

section

open Iterative

variable {w : Width} {c : Course Lookup} {log : LookupLog}

namespace Engine.Logs

theorem kept (hlogs : (Engine.iterative w).Logs accepts target c log) :
    AddressesKept c ∧ Recorded accepts c :=
  hlogs.invariant (I := fun c => AddressesKept c ∧ Recorded accepts c) ⟨.start, .start⟩
    (fun _ ⟨hkept, hrecorded⟩ => ⟨hkept.ask, hrecorded.ask⟩)
    (fun _ nodes ⟨hkept, hrecorded⟩ => ⟨hkept.seed nodes, hrecorded.seed nodes⟩)
    (fun _ node report others _ ⟨hkept, hrecorded⟩ =>
      ⟨hkept.settle node report others, hrecorded.settle hkept node report others⟩)

theorem nodup_responders (hlogs : (Engine.iterative w).Logs accepts target c log) :
    (c.state.responders.nodes.map Node.id).Nodup := by
  refine hlogs.invariant (I := fun c => (c.state.responders.nodes.map Node.id).Nodup) .nil
    (fun _ hnodup => hnodup) (fun _ _ hnodup => hnodup) fun c node report others _ hnodup => ?_
  change ((c.state.respond report.responder).responders.nodes.map Node.id).Nodup
  cases report.responder with
  | none => exact hnodup
  | some responder => exact ClosestNodes.nodup_ids_add hnodup responder

/-- A batch takes no more slots than are free. -/
theorem length_inFlight_le (hlogs : (Engine.iterative w).Logs accepts target c log) :
    c.inFlight.length ≤ w.alpha := by
  refine hlogs.invariant (I := fun c => c.inFlight.length ≤ w.alpha) (Nat.zero_le _) ?_
    (fun _ _ hslots => hslots) ?_
  · intro c hslots
    have hbatch := c.state.length_next_le (w := w) c.inFlight.length
    change (c.inFlight ++ (c.state.next w c.inFlight.length).1).length ≤ w.alpha
    rw [List.length_append]
    omega
  · intro c node report others hflying hslots
    rw [hflying.length_eq, List.length_cons] at hslots
    exact Nat.le_of_succ_le hslots

theorem length_asked_le (hlogs : (Engine.iterative w).Logs accepts target c log) :
    log.asked.length ≤ log.entries.length + w.alpha := by
  rw [hlogs.logged.length_asked]
  exact Nat.add_le_add_left hlogs.length_inFlight_le _

theorem withinSlots (hlogs : (Engine.iterative w).Logs accepts target c log) : WithinSlots w.alpha log := by
  induction hlogs with
  | start =>
    intro earlier hprefix
    rw [List.prefix_nil.1 hprefix]
    exact Nat.zero_le _
  | @ask c log hlogs ih =>
    have hasked := hlogs.ask.length_asked_le
    rw [LookupLog.asked_append, LookupLog.entries_append, LookupLog.entries_map_asked, List.append_nil,
      List.length_append] at hasked
    exact ih.append hasked
  | seed nodes hlogs ih => exact ih.append hlogs.length_asked_le
  | settle reply? hlogs _ ih => exact ih.append hlogs.length_asked_le

/-- Whatever is asked was a candidate. -/
theorem sourced (hlogs : (Engine.iterative w).Logs accepts target c log) : Sourced accepts log := by
  induction hlogs with
  | start => exact fun before node after hlog => absurd hlog (by simp)
  | @ask c log hlogs ih =>
    refine ih.ask fun node hnode => ?_
    have hcandidate := (c.state.mem_next w _ hnode).1
    obtain ⟨haccepts, hheard⟩ := hlogs.kept.2.candidates node hcandidate
    exact ⟨haccepts, hlogs.logged.exists_names hheard⟩
  | seed nodes _ ih => exact ih.concat nofun
  | settle reply? _ _ ih => exact ih.concat nofun

theorem responders_tokens (hlogs : (Engine.iterative w).Logs accepts target c log) :
    ∀ node ∈ c.state.responders.nodes, node.token.isSome = true := by
  intro node hnode
  obtain ⟨entry, hentry, hresponder⟩ := hlogs.kept.2.responders node hnode
  rw [hlogs.logged.reports] at hentry
  obtain ⟨asked, reply?, -, rfl⟩ := LookupLog.mem_entries_iff.1 hentry
  exact QueryReport.isSome_token_of_ofReply? hresponder

theorem responders_le (hlogs : (Engine.iterative w).Logs accepts target c log) :
    c.state.responders.nodes.length ≤ c.state.stats.responses := by
  rw [hlogs.kept.2.responses]
  refine (hlogs.nodup_responders.of_map.subperm fun node hnode => ?_).length_le
  obtain ⟨entry, hentry, hresponder⟩ := hlogs.kept.2.responders node hnode
  exact List.mem_filterMap.2 ⟨entry, hentry, hresponder⟩

theorem safe (hlogs : (Engine.iterative w).Logs accepts target c log) : Safe w accepts c log := by
  have hlogged := hlogs.logged
  have htried : c.state.stats.tried = log.asked.length := by rw [hlogs.kept.1.tried, hlogged.asked]
  have hresponses : c.state.stats.responses = log.tokens.length := by
    rw [hlogs.kept.2.responses, hlogged.reports, LookupLog.length_tokens]
  refine ⟨hlogs.length_inFlight_le, hlogged.balance, hlogs.withinSlots, hlogs.sourced, htried, hresponses, ?_,
    hlogs.nodup_responders, hlogs.responders_tokens, hlogs.responders_le⟩
  have hreplies : log.tokens.length ≤ log.entries.length := by
    rw [LookupLog.length_tokens]
    exact List.length_filterMap_le _ _
  have hasked := hlogged.length_asked
  omega

end Engine.Logs

/-- Whatever the nodes reply, and in whichever order, a lookup has at no time more than `alpha` queries in
    flight, asks only accepted nodes that it was given or that an earlier reply named, counts each query and
    each reply with a token once, and keeps of each id one responder, with its token. This holds of every
    course whose reports are those that replies make, as the reports of every discovery are. -/
theorem Iterative.lookup_safe (w : Width) (accepts : Node → Bool) (target : NodeId) :
    (∀ c log, (Engine.iterative w).Logs accepts target c log → Safe w accepts c log) ∧
    (∀ c, (Engine.iterative w).Reaches accepts target c →
      (∀ entry ∈ c.reports, ∃ reply?, entry.2 = .ofReply? entry.1 reply?) →
      ∃ log, (Engine.iterative w).Logs accepts target c log) ∧
    ∀ (σ ρ : Type) (s : Search σ Lookup) (network : σ) (d : Discovery σ Lookup ρ) c, s.Follows network d c →
      ∀ entry ∈ c.reports, ∃ reply?, entry.2 = .ofReply? entry.1 reply? :=
  ⟨fun _ _ hlogs => hlogs.safe, fun _ hreach => hreach.exists_log, fun _ _ _ _ _ _ hfollows =>
    hfollows.reports_of_replies⟩

/-- A lookup is given one node, whose reply brings a token and names another. -/
theorem Iterative.lookup_safe_of_two :
    let e := Engine.iterative {}
    let known : Node := ⟨default, Address.ofV4 10 0 0 1 6881, none⟩
    let named : Node := ⟨⟨Octets.ofPadded [1]⟩, Address.ofV4 10 0 0 2 6881, none⟩
    let reply : GetReply := { token := some ⟨[1, 2, 3, 4]⟩, nodes := [named] }
    let c := Course.ask e (Course.settle e (fun _ => true) known (.ofReply? known (some reply)) []
      (Course.ask e (Course.seed e (fun _ => true) [known] { state := e.start default })))
    c.inFlight = [named] ∧ c.state.stats = ⟨2, 1⟩ ∧ c.state.responders.nodes.length ≤ 1 ∧
      ∃ event ∈ [LookupEvent.given [known], .asked known, .settled known (some reply)], event.Names named := by
  intro e known named reply c
  have hlogs : e.Logs (fun _ => true) default c
      [.given [known], .asked known, .settled known (some reply), .asked named] :=
    (((Engine.Logs.start.seed [known]).ask).settle (some reply) (.refl _)).ask
  have hsafe := (lookup_safe {} _ _).1 c _ hlogs
  have hstats : c.state.stats = ⟨2, 1⟩ := congrArg₂ LookupStats.mk hsafe.tried hsafe.responses
  have hresponders := hsafe.responders_le
  rw [hstats] at hresponders
  exact ⟨by decide, hstats, hresponders, (hsafe.sourced _ named [] rfl).2⟩

end

end DhtStore
