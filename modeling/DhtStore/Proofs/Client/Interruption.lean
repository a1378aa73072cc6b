import DhtStore.Proofs.Client.Put

namespace DhtStore

open Reader

variable {σ S α : Type}

namespace Outcome

/-- A call that does not return before some instant. -/
def LastsUntil (o : Outcome σ α) (instant : Instant) : Prop :=
  ∀ time result, o.returned = some (time, result) → instant ≤ time

/-- A call that was over as it began: it gives the reason at once, and sends nothing. If its own task acts first, it
    does nothing else at all. -/
structure Unbegun (o : Outcome σ α) (schedule : Schedule) (now : Instant) (reason : Interruption) (network : σ) :
    Prop where
  returned : o.returned = some (now, .error (.interrupted reason))
  network : o.network = network
  sent : (o.history ++ o.late).sent = []
  idle : schedule 0 = 0 → o.history = [] ∧ o.late = []

end Outcome

namespace Search

variable {s : Search σ S} {ρ : Type} {read : Reader ρ} {init : ρ} {now : Instant} {network : σ}
  {reason : Interruption} {ending : Ending ρ} {d last : Discovery σ S ρ}

/-- A discovery that is over as it begins ends at once, and sends nothing, whoever acts before the reader. -/
theorem kept_of_interruption? (hlawful : s.engine.Lawful) (hreason : s.lifetime.interruption? now = some reason)
    (hdiscover : s.discover read init now network = (ending, last)) :
    ending = .interrupted reason ∧ s.Kept (s.initial now network init) last := by
  obtain ⟨other, rfl, hinterrupts⟩ | ⟨hlasting, -⟩ :=
    discover_ends (P := fun _ => True) hlawful (fun _ => trivial) (fun _ _ _ => trivial) hdiscover
  · have hsame := hinterrupts.reason_eq
    rw [hinterrupts.kept.now] at hsame
    cases hsame.symm.trans hreason
    exact ⟨rfl, hinterrupts.kept⟩
  · rw [Lifetime.isOver, hreason] at hlasting
    cases hlasting

/-- If the reader acts first, a discovery that is over as it begins leaves everything as it was. -/
theorem discover_of_first (hreason : s.lifetime.interruption? now = some reason) (hfirst : s.schedule 0 = 0) :
    s.discover read init now network = (.interrupted reason, { s.initial now network init with moved := 1 }) := by
  have hpoll : s.lifetime.poll? (s.initial now network init).now = some reason :=
    (Lifetime.poll?_eq_interruption? ..).trans hreason
  obtain ⟨others, hmoves⟩ : ∃ others, s.moves (s.initial now network init) = .interrupt reason :: others := by
    unfold moves readerMoves
    rw [hpoll]
    exact ⟨_, rfl⟩
  have hstep : s.step read (s.initial now network init) =
      .ended (.interrupted reason) { s.initial now network init with moved := 1 } := by
    have hmoved : s.schedule (s.initial now network init).moved = 0 := hfirst
    simp only [step, hmoves, hmoved, Nat.zero_mod, List.getElem?_cons_zero]
    rfl
  unfold discover
  rw [run, hstep]

theorem overrun_start (hlawful : s.engine.Lawful) (hengine : d.engine = s.engine.start s.target) :
    s.overrun (.interrupted reason) d = [] := by
  cases reason with
  | canceled => rfl
  | deadlineExceeded => simp [overrun, hengine, hlawful.overrun_start]

/-- What a discovery that was over as it began calls for is not sent, neither before its end nor after it. -/
theorem Kept.sent (hkept : s.Kept (s.initial now network init) last) (ending : Ending ρ) :
    (last.history ++ s.overrun ending last).sent = [] := by
  obtain ⟨nodes, hhistory⟩ := hkept.history
  have hbefore : last.history.sent = [] := by
    rw [hhistory, History.sent_append_dropped]
    rfl
  have hafter : (s.overrun ending last).sent = [] := by
    unfold overrun
    split
    · exact History.sent_append_dropped last.now s.request (s.engine.overrun last.engine) []
    · rfl
  rw [History.sent_append, hbefore, hafter]
  rfl

end Search

namespace Client

variable {c : Client σ S} {lifetime : Lifetime} {target : NodeId} {seq : Option Seq}
  {salt : Option Bytes} {builder : Builder σ} {now : Instant} {network : σ}

section

variable {d : Discovery σ S (Option MutableItem)} {ending : Ending (Option MutableItem)}

theorem get_of_interrupted {reason : Interruption}
    (hdiscover : (c.search lifetime target seq salt).discover best none now network =
      (.interrupted reason, d)) :
    (c.get lifetime target seq salt now network).returned =
      some (d.now, .error (.interrupted reason)) := by
  simp only [get, hdiscover]

/-- A get whose search ends of itself finds an item, or nothing. -/
theorem get_of_natural (hnatural : ending.isNatural = true)
    (hdiscover : (c.search lifetime target seq salt).discover best none now network = (ending, d)) :
    ∃ result, (c.get lifetime target seq salt now network).returned = some (d.now, result) ∧
      ∀ reason, result ≠ .error (.interrupted reason) := by
  simp only [get, hdiscover]
  cases ending with
  | resolved item => exact ⟨_, rfl, by simp⟩
  | exhausted kept => cases kept <;> exact ⟨_, rfl, by simp⟩
  | interrupted reason => cases hnatural
  | endless => cases hnatural

end

theorem get_within_deadline (hlawful : c.engine.Lawful) {deadline : Instant}
    (hdeadline : lifetime.deadline = some deadline) :
    ∃ time result, (c.get lifetime target seq salt now network).returned = some (time, result) ∧
      time ≤ max now deadline ∧
      ((∀ reason, result ≠ .error (.interrupted reason)) → time < deadline) ∧
      ∀ reason, result = .error (.interrupted reason) →
        ∃ instant, lifetime.instantOf? reason = some instant ∧ time = max now instant := by
  cases hdiscover : (c.search lifetime target seq salt).discover best none now network with
  | mk ending d =>
    obtain ⟨hend, hle⟩ := Search.now_le_of_deadline hlawful hdiscover hdeadline
    cases ending with
    | endless => exact absurd rfl hend
    | interrupted reason =>
      refine ⟨d.now, _, get_of_interrupted hdiscover, hle, fun hnot => absurd rfl (hnot reason), ?_⟩
      intro other hother
      cases hother
      exact Search.now_of_interrupted hlawful hdiscover
    | _ =>
      obtain ⟨result, hreturned, hnot⟩ := get_of_natural rfl hdiscover
      obtain ⟨-, hlasting⟩ := Search.lasting_of_natural hlawful hdiscover rfl
      refine ⟨d.now, result, hreturned, hle, fun _ => ?_, fun reason heq => absurd heq (hnot reason)⟩
      exact (Lifetime.isOver_eq_false_iff.1 hlasting).2 deadline hdeadline

theorem put_within_deadline (hlawful : c.engine.Lawful) {deadline : Instant}
    (hdeadline : lifetime.deadline = some deadline) :
    ∃ time result, (c.putWith lifetime target salt builder now network).returned = some (time, result) ∧
      time ≤ max now deadline := by
  cases hdiscover : (c.search lifetime target none salt).discover highestSeq 0 now network with
  | mk ending d =>
    obtain ⟨hend, hle⟩ := Search.now_le_of_deadline hlawful hdiscover hdeadline
    cases ending with
    | endless => exact absurd rfl hend
    | resolved item => exact absurd hdiscover Search.not_resolved_of_highestSeq
    | interrupted reason => exact ⟨d.now, _, returned_of_interrupted hdiscover, hle⟩
    | exhausted seen =>
      refine ⟨_, _, returned_of_exhausted hdiscover, ?_⟩
      -- The builder may shorten the lifetime, but not put off its deadline.
      have hkept : (lifetime.cancelledAt (builder seen d.now d.network).cancelAt).deadline =
          some deadline := hdeadline
      exact Nat.le_trans (finished_le_of_deadline hkept) (Nat.max_le.2 ⟨hle, Nat.le_max_right _ _⟩)

theorem get_cancelledAt (hlawful : c.engine.Lawful) {cancel : Instant}
    (hlong : (c.get lifetime target seq salt now network).LastsUntil cancel) :
    (c.get (lifetime.cancelledAt (some cancel)) target seq salt now network).returned =
      some (max now cancel, .error (.interrupted .canceled)) := by
  cases hdiscover : (c.search lifetime target seq salt).discover best none now network with
  | mk ending d =>
    have hlate : ending ≠ .endless → cancel ≤ d.now := by
      intro hend
      cases ending with
      | endless => exact absurd rfl hend
      | interrupted reason => exact hlong _ _ (get_of_interrupted hdiscover)
      | _ =>
        obtain ⟨result, hreturned, -⟩ := get_of_natural rfl hdiscover
        exact hlong _ _ hreturned
    obtain ⟨cut, hcut, hnow⟩ := Search.discover_cancelledAt hlawful hdiscover hlate
    exact (get_of_interrupted hcut).trans (by rw [hnow])

/-- A put that is cancelled before its item is built fails. -/
theorem put_cancelledAt_of_discovering (hlawful : c.engine.Lawful) {cancel : Instant}
    (hlong : (c.putWith lifetime target salt builder now network).LastsUntil cancel)
    (hunbuilt : ∀ time seen item,
      .built time seen item ∈ (c.putWith lifetime target salt builder now network).history → cancel ≤ time) :
    (c.putWith (lifetime.cancelledAt (some cancel)) target salt builder now network).returned =
      some (max now cancel, .error (.interrupted .canceled)) := by
  cases hdiscover : (c.search lifetime target none salt).discover highestSeq 0 now network with
  | mk ending d =>
    have hlate : ending ≠ .endless → cancel ≤ d.now := by
      intro hend
      cases ending with
      | endless => exact absurd rfl hend
      | resolved item => exact absurd hdiscover Search.not_resolved_of_highestSeq
      | interrupted reason => exact hlong _ _ (returned_of_interrupted hdiscover)
      | exhausted seen =>
        have hwritten : c.Written builder seen d (c.putWith lifetime target salt builder now network) :=
          written_of_exhausted hdiscover
        obtain ⟨writes, -, hhistory⟩ := hwritten.history
        refine hunbuilt d.now seen (builder seen d.now d.network).item ?_
        rw [hhistory]
        exact List.mem_append_right _ (List.mem_cons_self ..)
    obtain ⟨cut, hcut, hnow⟩ := Search.discover_cancelledAt hlawful hdiscover hlate
    exact (returned_of_interrupted hcut).trans (by rw [hnow])

/-- A put that is cancelled after its item was built succeeds with what the writes came to so far. -/
theorem put_cancelledAt_of_built (hlawful : c.engine.Lawful) {cancel time : Instant} {seen : Seq}
    {item : Item} (hlong : (c.putWith lifetime target salt builder now network).LastsUntil cancel)
    (hbuilt : .built time seen item ∈ (c.putWith lifetime target salt builder now network).history)
    (hlater : time < cancel) :
    ∃ receipt, (c.putWith (lifetime.cancelledAt (some cancel)) target salt builder now network).returned =
      some (cancel, .ok receipt) := by
  obtain ⟨d, hdiscover, rfl, -⟩ := discover_of_built hbuilt
  obtain ⟨hfree, hlasting⟩ := (exhausted_iff hlawful).1 hdiscover
  have hstill : (lifetime.cancelledAt (some cancel)).isOver d.now = false :=
    Lifetime.isOver_cancelledAt_eq_false_iff.2 ⟨hlater, hlasting⟩
  have hcut := (exhausted_iff hlawful).2 ⟨hfree, hstill⟩
  have hfinished := finished_cancelledAt hlater (hlong _ _ (returned_of_exhausted hdiscover))
  rw [Lifetime.cancelledAt_right_comm] at hfinished
  have hreturned : (c.putWith (lifetime.cancelledAt (some cancel)) target salt builder now network).returned =
      _ := returned_of_exhausted hcut
  simp only [write] at hreturned
  rw [hfinished] at hreturned
  exact ⟨_, hreturned⟩

theorem get_of_over (hlawful : c.engine.Lawful) {reason : Interruption}
    (hreason : lifetime.interruption? now = some reason) :
    (c.get lifetime target seq salt now network).Unbegun c.schedule now reason network := by
  cases hdiscover : (c.search lifetime target seq salt).discover best none now network with
  | mk ending d =>
    obtain ⟨rfl, hkept⟩ := Search.kept_of_interruption? hlawful hreason hdiscover
    refine ⟨(get_of_interrupted hdiscover).trans (by rw [hkept.now]; rfl), ?_, ?_, fun hfirst => ?_⟩
    · simp only [get, hdiscover, hkept.network]
      rfl
    · simpa only [get, hdiscover] using hkept.sent _
    · cases hdiscover.symm.trans (Search.discover_of_first hreason hfirst)
      simp only [get, hdiscover]
      exact ⟨rfl, Search.overrun_start hlawful rfl⟩

theorem put_of_over (hlawful : c.engine.Lawful) {reason : Interruption}
    (hreason : lifetime.interruption? now = some reason) :
    (c.putWith lifetime target salt builder now network).Unbegun c.schedule now reason network := by
  cases hdiscover : (c.search lifetime target none salt).discover highestSeq 0 now network with
  | mk ending d =>
    obtain ⟨rfl, hkept⟩ := Search.kept_of_interruption? hlawful hreason hdiscover
    refine ⟨(returned_of_interrupted hdiscover).trans (by rw [hkept.now]; rfl), ?_, ?_, fun hfirst => ?_⟩
    · simp only [putWith, hdiscover, hkept.network]
      rfl
    · simpa only [putWith, hdiscover] using hkept.sent _
    · cases hdiscover.symm.trans (Search.discover_of_first hreason hfirst)
      simp only [putWith, hdiscover]
      exact ⟨rfl, Search.overrun_start hlawful rfl⟩

/-- The end of its lifetime goes before everything in a call. A call with a deadline returns no later; a get
    finds an item, or nothing, only before the deadline, and else gives the reason at the instant of the
    reason. A cancellation at an instant up to which the call would have lasted takes effect at that very
    instant: a get, and a put that has not built its item, fail, and a put that has built it succeeds. A
    call that is over as it begins sends nothing. -/
theorem interruption_prevails (hlawful : c.engine.Lawful) (lifetime : Lifetime) (target : NodeId)
    (seq : Option Seq) (salt : Option Bytes) (builder : Builder σ) (now : Instant) (network : σ) :
    let get (lifetime : Lifetime) := c.get lifetime target seq salt now network
    let put (lifetime : Lifetime) := c.putWith lifetime target salt builder now network
    (∀ deadline, lifetime.deadline = some deadline →
      (∃ time result, (get lifetime).returned = some (time, result) ∧ time ≤ max now deadline ∧
        ((∀ reason, result ≠ .error (.interrupted reason)) → time < deadline) ∧
        ∀ reason, result = .error (.interrupted reason) →
          ∃ instant, lifetime.instantOf? reason = some instant ∧ time = max now instant) ∧
      ∃ time result, (put lifetime).returned = some (time, result) ∧ time ≤ max now deadline) ∧
    (∀ cancel,
      let cut := lifetime.cancelledAt (some cancel)
      ((get lifetime).LastsUntil cancel →
        (get cut).returned = some (max now cancel, .error (.interrupted .canceled))) ∧
      ((put lifetime).LastsUntil cancel →
        ((∀ time seen item, .built time seen item ∈ (put lifetime).history → cancel ≤ time) →
          (put cut).returned = some (max now cancel, .error (.interrupted .canceled))) ∧
        ∀ time seen item, .built time seen item ∈ (put lifetime).history → time < cancel →
          ∃ receipt, (put cut).returned = some (cancel, .ok receipt))) ∧
    ∀ reason, lifetime.interruption? now = some reason →
      (get lifetime).Unbegun c.schedule now reason network ∧ (put lifetime).Unbegun c.schedule now reason network := by
  intro get put
  refine ⟨fun deadline hdeadline => ?_, fun cancel => ⟨?_, fun hlong => ⟨?_, ?_⟩⟩, fun reason hreason => ?_⟩
  · exact ⟨get_within_deadline hlawful hdeadline, put_within_deadline hlawful hdeadline⟩
  · exact get_cancelledAt hlawful
  · exact put_cancelledAt_of_discovering hlawful hlong
  · intro time seen item hbuilt hlater
    exact put_cancelledAt_of_built hlawful hlong hbuilt hlater
  · exact ⟨get_of_over hlawful hreason, put_of_over hlawful hreason⟩

/-- A node that never answers: the deadline ends a get, unless a cancellation comes first. -/
theorem interruption_prevails_lone :
    let c := Client.ofLone .never
    let lifetime : Lifetime := { deadline := some 5 }
    (∃ time result, (c.get lifetime default none none 0 ()).returned = some (time, result) ∧ time ≤ 5) ∧
      (c.get { lifetime with cancelAt := some 2 } default none none 0 ()).returned =
        some (2, .error (.interrupted .canceled)) ∧
      (c.get lifetime default none none 9 ()).Unbegun c.schedule 9 .deadlineExceeded () := by
  intro c lifetime
  have hlawful : c.engine.Lawful := .iterative {}
  have hspec (now : Instant) := interruption_prevails hlawful lifetime default none none
    (.ofFunction fun _ => .immutable []) now ()
  obtain ⟨hdeadline, hcancel, -⟩ := hspec 0
  obtain ⟨-, -, hover⟩ := hspec 9
  refine ⟨?_, ?_, (hover .deadlineExceeded rfl).1⟩
  · obtain ⟨⟨time, result, hreturned, hle, -⟩, -⟩ := hdeadline 5 rfl
    exact ⟨time, result, hreturned, hle⟩
  · have htime : (c.get lifetime default none none 0 ()).returned.map Prod.fst = some 5 := by
      decide +kernel
    refine (hcancel 2).1 fun time result hreturned => ?_
    rw [hreturned] at htime
    cases htime
    decide

end Client

end DhtStore
