import KeyLease.Proofs.Lifecycle.Course

set_option autoImplicit false

/-!
# Transitions one after the other

What the calls of a lifecycle show when each is taken alone: `sequential` takes turns in a given
order, each with what came of it, on a bare status. A transition that is refused ends without its
work. An opening that fails or is dropped leaves the status as it was; a closing leaves
`disconnected` from its beginning on, whatever comes of it.

`Course.Linear` is the invariant that a course shows just this, its calls taken in the order in
which they were made, less those that were dropped while they waited.
-/

namespace KeyLease.Lifecycle

/-- What has come of a call that has had its turn. -/
inductive Fate
  | completed
  | dropped
  | underWay
  deriving DecidableEq

namespace Transition

/-- The transition alone, where its work gives `outcome`: the result and the status after it. -/
def apply (s : Status) (outcome : Except Failure Unit) :
    Transition → Except Failure Unit × Status
  | .connect => s.connect outcome
  | .disconnect => s.disconnect outcome

/-- Whether the transition comes to its work. -/
def runs (s : Status) : Transition → Bool
  | .connect => s ≠ .connected
  | .disconnect => s = .connected

/-- The status while the work of the transition is under way, and ever after if it is dropped. -/
def shown (s : Status) : Transition → Status
  | .connect => s
  | .disconnect => .disconnected

end Transition

/-- What is seen of calls that are taken one after the other: the status, and for each event the
number of its call. -/
structure Sequence where
  status : Status := .uninitialized
  events : List (Nat × Event) := []

/-- One more call has its turn. -/
def Sequence.turn (s : Sequence) (r : Request) (fate : Fate) : Sequence :=
  let (result, status) := r.transition.apply s.status r.outcome
  let shown := r.transition.shown s.status
  if r.transition.runs s.status then
    match fate with
    | .completed => ⟨status, s.events ++ [(r.task, .began), (r.task, .ended result)]⟩
    | .dropped => ⟨shown, s.events ++ [(r.task, .began), (r.task, .dropped)]⟩
    | .underWay => ⟨shown, s.events ++ [(r.task, .began)]⟩
  else ⟨status, s.events ++ [(r.task, .ended result)]⟩

/-- Calls with their fates, one after the other. -/
def sequential (turns : List (Request × Fate)) : Sequence :=
  turns.foldl (fun s p => s.turn p.1 p.2) {}

@[simp] theorem sequential_snoc (turns : List (Request × Fate)) (r : Request) (fate : Fate) :
    sequential (turns ++ [(r, fate)]) = (sequential turns).turn r fate := by
  simp [sequential]

namespace Sequence

variable (s : Sequence) {r : Request}

theorem turn_of_not_runs (hruns : r.transition.runs s.status = false) {failure : Failure}
    (happly : r.transition.apply s.status r.outcome = (.error failure, s.status)) (fate : Fate) :
    s.turn r fate = ⟨s.status, s.events ++ [(r.task, .ended (.error failure))]⟩ := by
  simp [turn, hruns, happly]

theorem turn_completed (hruns : r.transition.runs s.status = true) {result : Except Failure Unit}
    {status : Status} (happly : r.transition.apply s.status r.outcome = (result, status)) :
    s.turn r .completed =
      ⟨status, s.events ++ [(r.task, .began), (r.task, .ended result)]⟩ := by
  simp [turn, hruns, happly]

theorem turn_dropped (hruns : r.transition.runs s.status = true) :
    s.turn r .dropped = ⟨r.transition.shown s.status,
      s.events ++ [(r.task, .began), (r.task, .dropped)]⟩ := by
  simp [turn, hruns]

theorem turn_underWay (hruns : r.transition.runs s.status = true) :
    s.turn r .underWay = ⟨r.transition.shown s.status, s.events ++ [(r.task, .began)]⟩ := by
  simp [turn, hruns]

end Sequence

/-! ## The machine against one turn -/

namespace Machine

/-- A machine refuses what does not come to its work, with the result that it has alone. -/
theorem refusal?_eq_some {s : Status} {t : Transition} {failure : Failure}
    (h : refusal? s t = some failure) (outcome : Except Failure Unit) :
    t.runs s = false ∧ t.apply s outcome = (.error failure, s) := by
  cases t <;> cases s <;>
    simp_all [refusal?, Transition.runs, Transition.apply, Status.connect, Status.disconnect]

theorem refusal?_eq_none {s : Status} {t : Transition} (h : refusal? s t = none) :
    t.runs s = true := by
  cases t <;> cases s <;> simp_all [refusal?, Transition.runs]

@[simp] theorem begin_status (m : Machine) (r : Request) :
    (m.begin r).status = r.transition.shown m.status := by
  unfold begin
  cases r.transition <;> rfl

@[simp] theorem begin_guarded (m : Machine) (r : Request) :
    (m.begin r).guarded = r.transition.shown m.guarded := by
  unfold begin
  cases r.transition <;> rfl

/-- Work that ends gives its result, and the status that the transition leaves alone. -/
theorem finish_status {m : Machine} {r : Request} {s : Status} (hruns : r.transition.runs s = true)
    (hstatus : m.status = r.transition.shown s) (hguarded : m.guarded = m.status) :
    r.transition.apply s r.outcome = (r.outcome, (m.finish r).status) ∧
      (m.finish r).guarded = (m.finish r).status := by
  unfold finish
  cases htrans : r.transition with
  | connect =>
      rw [htrans] at hruns hstatus
      cases hout : r.outcome with
      | ok u => cases s <;>
          simp_all [Transition.runs, Transition.apply, Status.connect, publish]
      | error e => cases s <;>
          simp_all [Transition.runs, Transition.apply, Status.connect, Transition.shown]
  | disconnect =>
      rw [htrans] at hruns hstatus
      cases s <;>
        simp_all [Transition.runs, Transition.apply, Status.disconnect, Transition.shown]

end Machine

/-! ## The log of some tasks -/

/-- What a log tells of certain tasks, without the instants. -/
def eventsOf (log : List Entry) (tasks : List Nat) : List (Nat × Event) :=
  (log.filter (·.task ∈ tasks)).map fun e => (e.task, e.event)

theorem eventsOf_append (log extra : List Entry) (tasks : List Nat) :
    eventsOf (log ++ extra) tasks = eventsOf log tasks ++ eventsOf extra tasks := by
  simp [eventsOf]

theorem eventsOf_eq_nil {log : List Entry} {tasks : List Nat} (h : ∀ e ∈ log, e.task ∉ tasks) :
    eventsOf log tasks = [] := by
  simp only [eventsOf, List.map_eq_nil_iff, List.filter_eq_nil_iff, decide_eq_true_eq]
  exact h

theorem eventsOf_singleton {e : Entry} {tasks : List Nat} (h : e.task ∈ tasks) :
    eventsOf [e] tasks = [(e.task, e.event)] := by
  simp [eventsOf, h]

/-- The end of a task, if it has come. -/
def Sequence.verdict? (s : Sequence) (task : Nat) : Option Machine.Verdict :=
  s.events.findSome? fun e =>
    if e.1 = task then
      match e.2 with
      | .began => none
      | .ended result => some (.ended result)
      | .dropped => some .dropped
    else none

/-- The verdict on a task is in what the log tells of it. -/
theorem Machine.verdict?_eq {m : Machine} {tasks : List Nat} {task : Nat} (h : task ∈ tasks)
    {status : Status} :
    m.verdict? task = Sequence.verdict? ⟨status, eventsOf m.log tasks⟩ task := by
  rw [Machine.verdict?, Sequence.verdict?, eventsOf, List.findSome?_map]
  induction m.log with
  | nil => rfl
  | cons e rest ih =>
      -- Entries of the task are in the part that is kept; others decide nothing, kept or not.
      by_cases htask : e.task = task
      · cases hevent : e.event <;> simp [htask, h, hevent, ih]
      · by_cases hmem : e.task ∈ tasks
        · simp only [List.filter_cons, hmem, decide_true, if_true, List.findSome?_cons, ih,
            Function.comp_apply, if_neg htask]
        · simp only [List.filter_cons, hmem, decide_false, Bool.false_eq_true, if_false,
            List.findSome?_cons, ih, if_neg htask]

/-- A task of which the log tells nothing makes no difference. -/
theorem eventsOf_snoc {log : List Entry} {tasks : List Nat} {task : Nat}
    (h : ∀ e ∈ log, e.task ≠ task) : eventsOf log (tasks ++ [task]) = eventsOf log tasks := by
  have hfilter : log.filter (·.task ∈ tasks ++ [task]) = log.filter (·.task ∈ tasks) := by
    refine List.filter_congr fun e he => ?_
    simp [h e he]
  rw [eventsOf, hfilter, eventsOf]

/-! ## The invariant -/

namespace Course

/-- The calls that have had their turn, and the one that has it. -/
def turns (c : Course) (past : List (Request × Fate)) : List (Request × Fate) :=
  past ++ c.machine.turn.toList.map fun t => (t.request, .underWay)

/-- A course shows what its calls show one after the other, in the order in which they were made
less those that were dropped while they waited. -/
structure Linear (c : Course) (past : List (Request × Fate)) : Prop where
  settled : ∀ p ∈ past, p.2 ≠ .underWay
  fifo : (c.turns past).map (·.1) ++ c.machine.waiting =
    c.asked.filter (·.task ∉ c.lapsed)
  events : eventsOf c.machine.log ((c.turns past).map (·.1.task)) =
    (sequential (c.turns past)).events
  status : c.machine.status = (sequential (c.turns past)).status
  guarded : c.machine.guarded = c.machine.status
  runs : ∀ t, c.machine.turn = some t → t.request.transition.runs (sequential past).status
  silent : ∀ r ∈ c.machine.waiting, ∀ e ∈ c.machine.log, e.task ≠ r.task

theorem turns_of_none {c : Course} (h : c.machine.turn = none) (past : List (Request × Fate)) :
    c.turns past = past := by
  simp [turns, h]

theorem turns_of_some {c : Course} {t : Turn} (h : c.machine.turn = some t)
    (past : List (Request × Fate)) : c.turns past = past ++ [(t.request, .underWay)] := by
  simp [turns, h]

namespace Linear

variable {c c' : Course} {past : List (Request × Fate)}

theorem start : Linear {} [] := by
  refine ⟨?_, rfl, rfl, rfl, rfl, ?_, ?_⟩
  · intro p hp
    cases hp
  · intro t ht
    cases ht
  · intro r hr
    cases hr

theorem mem_asked (hl : c.Linear past) {r : Request}
    (hr : r ∈ (c.turns past).map (·.1) ++ c.machine.waiting) : r ∈ c.asked := by
  rw [hl.fifo] at hr
  exact (List.mem_filter.mp hr).1

/-- Nobody waits who has had a turn, and nobody twice. -/
theorem distinct (hl : c.Linear past) (hn : c.Numbered) :
    (((c.turns past).map (·.1) ++ c.machine.waiting).map (·.task)).Nodup := by
  rw [hl.fifo]
  exact hn.distinct.sublist (List.filter_sublist.map _)

theorem aside (hl : c.Linear past) (ha : Aside c c') : c'.Linear past := by
  obtain ⟨extra, hlog, hextra⟩ := ha.log
  have hturns : c'.turns past = c.turns past := by rw [turns, ha.turn, turns]
  refine ⟨hl.settled, ?_, ?_, ?_, ?_, ?_, ?_⟩
  · rw [hturns, ha.waiting, ha.asked, ha.lapsed, hl.fifo]
  · -- What is new is about other tasks.
    have hnil : eventsOf extra ((c.turns past).map (·.1.task)) = [] := by
      refine eventsOf_eq_nil fun e he hmem => ?_
      obtain ⟨p, hp, htask⟩ := List.mem_map.mp hmem
      have hasked : p.1 ∈ c.asked :=
        hl.mem_asked (List.mem_append_left _ (List.mem_map_of_mem hp))
      exact (hextra e he).2 p.1 hasked htask
    rw [hturns, hlog, eventsOf_append, hnil, List.append_nil, hl.events]
  · rw [hturns, ha.status, hl.status]
  · rw [ha.guarded, ha.status, hl.guarded]
  · rw [ha.turn]
    exact hl.runs
  · rw [ha.waiting, hlog]
    intro r hr e he
    rcases List.mem_append.mp he with he | he
    · exact hl.silent r hr e he
    · exact ((hextra e he).2 r (hl.mem_asked (List.mem_append_right _ hr))).symm

theorem asked (hl : c.Linear past) (hn : c.Numbered) {r : Request} (hfresh : r.task = c.fresh) :
    Linear { c with
      machine := c.machine.ask r, fresh := c.fresh + 1, asked := c.asked ++ [r] } past := by
  have hkept : r.task ∉ c.lapsed := fun h => Nat.lt_irrefl _ (hfresh ▸ hn.lapsed _ h)
  refine ⟨hl.settled, ?_, hl.events, hl.status, hl.guarded, hl.runs, ?_⟩
  · show (c.turns past).map (·.1) ++ (c.machine.waiting ++ [r]) = _
    rw [← List.append_assoc, hl.fifo, List.filter_append]
    simp [hkept]
  · intro r' hr' e he
    rcases List.mem_append.mp hr' with hr' | hr'
    · exact hl.silent r' hr' e he
    · rw [List.mem_singleton.mp hr', hfresh]
      exact Nat.ne_of_lt (hn.machine.log e he)

/-- Whoever stands behind the one in front is another task. -/
theorem behind_front (hl : c.Linear past) (hn : c.Numbered) {r : Request} {rest : List Request}
    (hfront : c.machine.waiting = r :: rest) : ∀ r' ∈ rest, r.task ≠ r'.task := by
  have hnodup := hl.distinct hn
  rw [hfront, List.map_append, List.map_cons] at hnodup
  have hcons := (List.nodup_append.mp hnodup).2.1
  intro r' hr' heq
  exact (List.nodup_cons.mp hcons).1 (heq ▸ List.mem_map_of_mem hr')

/-- What is noted of the one in front says nothing of those behind it. -/
theorem silent_rest (hl : c.Linear past) (hn : c.Numbered) {r : Request} {rest : List Request}
    (hfront : c.machine.waiting = r :: rest) (time : Nat) (event : Event) :
    ∀ r' ∈ rest, ∀ e ∈ c.machine.log ++ [⟨time, r.task, event⟩], e.task ≠ r'.task := by
  intro r' hr' e he
  rcases List.mem_append.mp he with he | he
  · exact hl.silent r' (by simp [hfront, hr']) e he
  · rw [List.mem_singleton.mp he]
    exact hl.behind_front hn hfront r' hr'

/-- The log of the one in front is what is noted of it now. -/
theorem events_front (hl : c.Linear past) {r : Request} {rest : List Request}
    (hfree : c.machine.turn = none) (hfront : c.machine.waiting = r :: rest) (time : Nat)
    (event : Event) (fate : Fate) :
    eventsOf (c.machine.log ++ [⟨time, r.task, event⟩])
        ((past ++ [(r, fate)]).map (·.1.task)) =
      (sequential past).events ++ [(r.task, event)] := by
  have hsilent := hl.silent r (by simp [hfront])
  have hevents := hl.events
  rw [turns_of_none hfree] at hevents
  rw [List.map_append, List.map_cons, List.map_nil, eventsOf_append, eventsOf_snoc hsilent,
    hevents, eventsOf_singleton (by simp)]

theorem refused (hl : c.Linear past) (hn : c.Numbered) {r : Request} {rest : List Request}
    {failure : Failure} (hfree : c.machine.turn = none) (hfront : c.machine.waiting = r :: rest)
    (hrefused : Machine.refusal? c.machine.guarded r.transition = some failure) :
    Linear { c with
      machine := { c.machine.note r.task (.ended (.error failure)) with waiting := rest } }
      (past ++ [(r, .completed)]) := by
  -- The machine goes by the guarded status, which is the one of the calls so far.
  have hstatus := hl.status
  rw [turns_of_none hfree] at hstatus
  rw [hl.guarded, hstatus] at hrefused
  obtain ⟨hruns, happly⟩ := Machine.refusal?_eq_some hrefused r.outcome
  have hturn := (sequential past).turn_of_not_runs hruns happly .completed
  refine ⟨?_, ?_, ?_, ?_, hl.guarded, fun t ht => ?_, hl.silent_rest hn hfront _ _⟩
  · intro p hp
    rcases List.mem_append.mp hp with hp | hp
    · exact hl.settled p hp
    · rw [List.mem_singleton.mp hp]
      exact nofun
  · have hfifo := hl.fifo
    rw [turns_of_none hfree, hfront] at hfifo
    rw [turns_of_none (by exact hfree)]
    simpa using hfifo
  · rw [turns_of_none (by exact hfree), sequential_snoc, hturn]
    exact hl.events_front hfree hfront _ _ _
  · rw [turns_of_none (by exact hfree), sequential_snoc, hturn]
    exact hstatus
  · exact absurd (hfree.symm.trans ht) nofun

theorem began (hl : c.Linear past) (hn : c.Numbered) {r : Request} {rest : List Request}
    (hfree : c.machine.turn = none) (hfront : c.machine.waiting = r :: rest)
    (hbegins : Machine.refusal? c.machine.guarded r.transition = none) :
    Linear { c with
      machine := { c.machine.begin r with
        turn := some ⟨r, c.machine.now + r.delay⟩, waiting := rest } } past := by
  have hstatus := hl.status
  rw [turns_of_none hfree] at hstatus
  rw [hl.guarded, hstatus] at hbegins
  have hruns := Machine.refusal?_eq_none hbegins
  have hturn := (sequential past).turn_underWay hruns
  refine ⟨hl.settled, ?_, ?_, ?_, ?_, ?_, ?_⟩
  · have hfifo := hl.fifo
    rw [turns_of_none hfree, hfront] at hfifo
    rw [turns_of_some rfl]
    simpa using hfifo
  · rw [turns_of_some rfl, sequential_snoc, hturn]
    simpa using hl.events_front hfree hfront _ _ .underWay
  · rw [turns_of_some rfl, sequential_snoc, hturn]
    simp [hstatus]
  · simp [hl.guarded]
  · intro t ht
    cases ht
    exact hruns
  · simpa using hl.silent_rest hn hfront c.machine.now .began

/-- Whoever waits is another task than the one whose turn it is. -/
theorem behind_turn (hl : c.Linear past) (hn : c.Numbered) {t : Turn}
    (hturn : c.machine.turn = some t) : ∀ r ∈ c.machine.waiting, t.request.task ≠ r.task := by
  have hnodup := hl.distinct hn
  rw [List.map_append] at hnodup
  intro r hr
  refine (List.nodup_append.mp hnodup).2.2 _ ?_ _ (List.mem_map_of_mem hr)
  simp [turns_of_some hturn]

/-- The turn ends: what is left to prove when the one whose turn it is becomes part of the past. -/
theorem ended (hl : c.Linear past) (hn : c.Numbered) {t : Turn} (hturn : c.machine.turn = some t)
    {fate : Fate} (hfate : fate ≠ .underWay) {event : Event} {m : Machine}
    (hfree : m.turn = none) (hwaiting : m.waiting = c.machine.waiting)
    (hlog : m.log = c.machine.log ++ [⟨c.machine.now, t.request.task, event⟩])
    (hguarded : m.guarded = m.status)
    (hsequence : (sequential past).turn t.request fate = ⟨m.status, (sequential past).events ++
      [(t.request.task, .began), (t.request.task, event)]⟩) :
    Linear { c with machine := m } (past ++ [(t.request, fate)]) := by
  refine ⟨?_, ?_, ?_, ?_, hguarded, fun t' ht' => ?_, ?_⟩
  · intro p hp
    rcases List.mem_append.mp hp with hp | hp
    · exact hl.settled p hp
    · rw [List.mem_singleton.mp hp]
      exact hfate
  · have hfifo := hl.fifo
    rw [turns_of_some hturn] at hfifo
    rw [turns_of_none hfree]
    simpa [hwaiting] using hfifo
  · -- That the work began is told already, as long as the turn is under way.
    have hevents := hl.events
    rw [turns_of_some hturn, sequential_snoc, (sequential past).turn_underWay (hl.runs t hturn)]
      at hevents
    rw [turns_of_none hfree, sequential_snoc, hsequence, hlog, eventsOf_append,
      eventsOf_singleton (by simp)]
    simp only [List.map_append, List.map_cons, List.map_nil] at hevents ⊢
    rw [hevents, List.append_assoc, List.cons_append, List.nil_append]
  · rw [turns_of_none hfree, sequential_snoc, hsequence]
  · exact absurd (hfree.symm.trans ht') nofun
  · show ∀ r ∈ m.waiting, ∀ e ∈ m.log, e.task ≠ r.task
    rw [hwaiting, hlog]
    intro r hr e he
    rcases List.mem_append.mp he with he | he
    · exact hl.silent r hr e he
    · rw [List.mem_singleton.mp he]
      exact hl.behind_turn hn hturn r hr

/-- The status while work is under way. -/
theorem status_of_turn (hl : c.Linear past) {t : Turn} (hturn : c.machine.turn = some t) :
    c.machine.status = t.request.transition.shown (sequential past).status := by
  rw [hl.status, turns_of_some hturn, sequential_snoc,
    (sequential past).turn_underWay (hl.runs t hturn)]

theorem completed (hl : c.Linear past) (hn : c.Numbered) {t : Turn}
    (hturn : c.machine.turn = some t) :
    Linear { c with machine := { c.machine.finish t.request with turn := none } }
      (past ++ [(t.request, .completed)]) := by
  have hruns := hl.runs t hturn
  obtain ⟨happly, hguarded⟩ := Machine.finish_status hruns (hl.status_of_turn hturn) hl.guarded
  have hfate : Fate.completed ≠ .underWay := nofun
  refine hl.ended hn hturn hfate rfl ?_ ?_ hguarded
    ((sequential past).turn_completed hruns happly)
  · exact Machine.finish_waiting _ _
  · exact Machine.finish_log _ _

theorem cut (hl : c.Linear past) (hn : c.Numbered) {t : Turn} (hturn : c.machine.turn = some t) :
    Linear { c with machine := { c.machine.note t.request.task .dropped with turn := none } }
      (past ++ [(t.request, .dropped)]) := by
  have hfate : Fate.dropped ≠ .underWay := nofun
  have hlog := Machine.note_log c.machine t.request.task .dropped
  refine hl.ended hn hturn hfate rfl rfl hlog hl.guarded ?_
  rw [(sequential past).turn_dropped (hl.runs t hturn), ← hl.status_of_turn hturn]
  rfl

theorem lapsed (hl : c.Linear past) (hn : c.Numbered) {task : Nat}
    (hwaits : ∃ r ∈ c.machine.waiting, r.task = task) :
    Linear { c with
      machine := { c.machine with
        waiting := c.machine.waiting.filter (·.task ≠ task) }.note task .dropped
      lapsed := c.lapsed ++ [task] } past := by
  obtain ⟨r, hr, rfl⟩ := hwaits
  have hnodup := hl.distinct hn
  rw [List.map_append] at hnodup
  -- Who is dropped while waiting has had no turn.
  have hother : ∀ p ∈ c.turns past, p.1.task ≠ r.task := fun p hp =>
    (List.nodup_append.mp hnodup).2.2 _ (List.mem_map_of_mem (List.mem_map_of_mem hp)) _
      (List.mem_map_of_mem hr)
  refine ⟨hl.settled, ?_, ?_, hl.status, hl.guarded, hl.runs, ?_⟩
  · -- Leaving out one more number is leaving out one who waits.
    have hkept : c.asked.filter (·.task ∉ c.lapsed ++ [r.task]) =
        (c.asked.filter (·.task ∉ c.lapsed)).filter (·.task ≠ r.task) := by
      rw [List.filter_filter]
      refine List.filter_congr fun r' _ => ?_
      simp [and_comm]
    have hturns : ((c.turns past).map (·.1)).filter (·.task ≠ r.task) =
        (c.turns past).map (·.1) := by
      refine List.filter_eq_self.mpr fun r' hr' => ?_
      obtain ⟨p, hp, rfl⟩ := List.mem_map.mp hr'
      simpa using hother p hp
    show (c.turns past).map (·.1) ++ c.machine.waiting.filter (·.task ≠ r.task) = _
    rw [hkept, ← hl.fifo, List.filter_append, hturns]
  · have hnil : eventsOf [⟨c.machine.now, r.task, .dropped⟩] ((c.turns past).map (·.1.task)) =
        [] := by
      refine eventsOf_eq_nil fun e he hmem => ?_
      rw [List.mem_singleton.mp he] at hmem
      obtain ⟨p, hp, htask⟩ := List.mem_map.mp hmem
      exact hother p hp htask
    show eventsOf (c.machine.log ++ [⟨c.machine.now, r.task, .dropped⟩]) _ = _
    rw [eventsOf_append]
    exact (congrArg _ hnil).trans (by rw [List.append_nil]; exact hl.events)
  · intro r' hr' e he
    obtain ⟨hr', hne⟩ := List.mem_filter.mp hr'
    rcases List.mem_append.mp he with he | he
    · exact hl.silent r' hr' e he
    · rw [List.mem_singleton.mp he]
      exact (of_decide_eq_true hne).symm

/-- **The step lemma.** Whatever comes next, what a course shows stays what its calls show one after
the other. -/
theorem effect (hl : c.Linear past) (hn : c.Numbered) (h : Effect c c') :
    ∃ past', c'.Linear past' := by
  cases h with
  | aside h => exact ⟨past, hl.aside h⟩
  | asked r hfresh => exact ⟨past, hl.asked hn hfresh⟩
  | refused r rest failure hfree hfront hrefused => exact ⟨_, hl.refused hn hfree hfront hrefused⟩
  | began r rest hfree hfront hruns => exact ⟨past, hl.began hn hfree hfront hruns⟩
  | completed t hturn => exact ⟨_, hl.completed hn hturn⟩
  | cut t hturn => exact ⟨_, hl.cut hn hturn⟩
  | lapsed task hwaits => exact ⟨past, hl.lapsed hn hwaits⟩

end Linear

end Course

end KeyLease.Lifecycle
