import KeyLease.Proofs.Lifecycle.Scripts
import KeyLease.Proofs.Lifecycle.Sequence
import KeyLease.Proofs.Log

set_option autoImplicit false

/-!
# Transitions are linearizable, and none of them blocks the others

`transitions_linearize`: whatever calls are made, however long their work takes, however it ends
and whichever of them are dropped at whatever moment, what is seen of a lifecycle is what its calls
show one after the other in the order in which they were made; the work of one call is over before
the work of the next begins; and a call that is over, also one that was dropped, keeps nobody from a
turn.

`Paced` is the invariant for the instants at which work begins and ends, `Settling` the one that
says who still stands in the way.
-/

namespace KeyLease.Lifecycle

/-! ## Work does not overlap -/

/-- At its `p`-th entry `e` the log tells that work begins. -/
def Begins (log : List Entry) (p : Nat) (e : Entry) : Prop :=
  log[p]? = some e ∧ e.event = .began

/-- Between the entries `p` and `q` and no later than `latest` the task of the `p`-th entry `e` has
come to its end. -/
def EndsBetween (log : List Entry) (p q : Nat) (e : Entry) (latest : Nat) : Prop :=
  ∃ r d, p < r ∧ r < q ∧ log[r]? = some d ∧ d.task = e.task ∧ d.event ≠ .began ∧
    e.time ≤ d.time ∧ d.time ≤ latest

/-- Work that has begun is over before other work begins, or it has the turn. -/
structure Paced (m : Machine) : Prop where
  closed : ∀ p e, Begins m.log p e → EndsBetween m.log p m.log.length e m.now ∨
    ∃ t, m.turn = some t ∧ t.request.task = e.task ∧ e.time ≤ m.now
  apart : ∀ p q e e', p < q → Begins m.log p e → Begins m.log q e' →
    EndsBetween m.log p q e e'.time

theorem EndsBetween.append {log : List Entry} {p q latest : Nat} {e : Entry}
    (h : EndsBetween log p q e latest) (extra : List Entry) {q' latest' : Nat} (hq : q ≤ q')
    (hlatest : latest ≤ latest') : EndsBetween (log ++ extra) p q' e latest' := by
  obtain ⟨r, d, hpr, hrq, hd, htask, hevent, hle, hle'⟩ := h
  exact ⟨r, d, hpr, Nat.lt_of_lt_of_le hrq hq, Log.getElem?_append_of_eq_some hd extra, htask,
    hevent, hle, Nat.le_trans hle' hlatest⟩

/-- Where nothing begins in what is new, the beginnings are the old ones. -/
theorem Begins.of_append {log extra : List Entry} {p : Nat} {e : Entry}
    (h : Begins (log ++ extra) p e) (hquiet : ∀ d ∈ extra, d.event ≠ .began) : Begins log p e := by
  obtain ⟨hp, hevent⟩ := h
  by_cases hlt : p < log.length
  · exact ⟨by rwa [List.getElem?_append_left hlt] at hp, hevent⟩
  · rw [List.getElem?_append_right (Nat.le_of_not_lt hlt)] at hp
    exact absurd hevent (hquiet e (List.mem_of_getElem? hp))

namespace Paced

variable {m m' : Machine}

/-- Nothing begins, and who had the turn keeps it or comes to its end. -/
theorem extend (hp : Paced m) {extra : List Entry} (hlog : m'.log = m.log ++ extra)
    (hquiet : ∀ d ∈ extra, d.event ≠ .began) (hnow : m.now ≤ m'.now)
    (hturn : ∀ t, m.turn = some t →
      m'.turn = some t ∨ ∃ d ∈ extra, d.task = t.request.task ∧ d.time = m'.now) : Paced m' := by
  have hlen : m.log.length ≤ (m.log ++ extra).length := by simp
  constructor
  · rw [hlog]
    intro p e hb
    have hold := hb.of_append hquiet
    rcases hp.closed p e hold with hends | ⟨t, ht, htask, hle⟩
    · exact Or.inl (hends.append extra hlen hnow)
    · rcases hturn t ht with hkept | ⟨d, hd, hdtask, htime⟩
      · exact Or.inr ⟨t, hkept, htask, Nat.le_trans hle hnow⟩
      · -- Its end is among what is new, at the place `i` there.
        obtain ⟨i, hi⟩ := List.getElem?_of_mem hd
        have hplt := (List.getElem?_eq_some_iff.mp hold.1).1
        have hilt := (List.getElem?_eq_some_iff.mp hi).1
        refine Or.inl ⟨m.log.length + i, d, by omega, by simp [hilt], ?_, hdtask.trans htask,
          hquiet d hd, htime ▸ Nat.le_trans hle hnow, Nat.le_of_eq htime⟩
        rw [List.getElem?_append_right (Nat.le_add_right _ _), Nat.add_sub_cancel_left, hi]
  · rw [hlog]
    intro p q e e' hpq hb hb'
    exact (hp.apart p q e e' hpq (hb.of_append hquiet) (hb'.of_append hquiet)).append extra
      (Nat.le_refl _) (Nat.le_refl _)

/-- Work begins when nobody has the turn. -/
theorem began (hp : Paced m) (hfree : m.turn = none) {t : Turn}
    (hlog : m'.log = m.log ++ [⟨m.now, t.request.task, .began⟩]) (hnow : m'.now = m.now)
    (hturn : m'.turn = some t) : Paced m' := by
  -- Nobody has the turn, so whatever has begun is over.
  have hover : ∀ {p : Nat} {e : Entry}, Begins m.log p e →
      EndsBetween m.log p m.log.length e m.now := by
    intro p e hb
    rcases hp.closed p e hb with hends | ⟨t', ht', -⟩
    · exact hends
    · exact absurd (hfree.symm.trans ht') nofun
  have hcases : ∀ {p : Nat} {e : Entry}, Begins m'.log p e →
      Begins m.log p e ∨ p = m.log.length ∧ e = ⟨m.now, t.request.task, .began⟩ := by
    intro p e hb
    rw [hlog] at hb
    exact (Log.getElem?_snoc_eq_some.mp hb.1).imp_left fun hold => ⟨hold, hb.2⟩
  constructor
  · intro p e hb
    rcases hcases hb with hold | ⟨rfl, rfl⟩
    · exact Or.inl (hlog ▸ (hover hold).append _ (by simp) (Nat.le_of_eq hnow.symm))
    · exact Or.inr ⟨t, hturn, rfl, Nat.le_of_eq hnow.symm⟩
  · intro p q e e' hpq hb hb'
    rcases hcases hb' with hold' | ⟨rfl, rfl⟩
    · rcases hcases hb with hold | ⟨rfl, -⟩
      · exact hlog ▸ (hp.apart p q e e' hpq hold hold').append _ (Nat.le_refl _) (Nat.le_refl _)
      · have hqlt := (List.getElem?_eq_some_iff.mp hold'.1).1
        omega
    · rcases hcases hb with hold | ⟨rfl, -⟩
      · exact hlog ▸ (hover hold).append _ (Nat.le_refl _) (Nat.le_refl _)
      · omega

end Paced

namespace Course

theorem paced_effect {c c' : Course} (hp : Paced c.machine) (h : Effect c c') :
    Paced c'.machine := by
  cases h with
  | aside h =>
      obtain ⟨extra, hlog, hextra⟩ := h.log
      exact hp.extend hlog (fun e he => (hextra e he).1) h.now fun t ht =>
        Or.inl (h.turn.trans ht)
  | asked r hfresh => exact hp.extend (List.append_nil _).symm nofun (Nat.le_refl _) fun t => Or.inl
  | refused r rest failure hfree hfront hrefused =>
      refine hp.extend rfl ?_ (Nat.le_refl _) fun t => Or.inl
      intro d hd
      rw [List.mem_singleton.mp hd]
      exact nofun
  | began r rest hfree hfront hruns =>
      exact hp.began hfree (Machine.begin_log _ _) (Machine.begin_now _ _) rfl
  | completed t hturn =>
      refine hp.extend (Machine.finish_log _ _) ?_ (Nat.le_of_eq (Machine.finish_now _ _).symm) ?_
      · intro d hd
        rw [List.mem_singleton.mp hd]
        exact nofun
      · intro t' ht'
        cases hturn.symm.trans ht'
        exact Or.inr ⟨_, List.mem_singleton.mpr rfl, rfl, (Machine.finish_now _ _).symm⟩
  | cut t hturn =>
      refine hp.extend rfl ?_ (Nat.le_refl _) ?_
      · intro d hd
        rw [List.mem_singleton.mp hd]
        exact nofun
      · intro t' ht'
        cases hturn.symm.trans ht'
        exact Or.inr ⟨_, List.mem_singleton.mpr rfl, rfl, rfl⟩
  | lapsed task hwaits =>
      refine hp.extend rfl ?_ (Nat.le_refl _) fun t => Or.inl
      intro d hd
      rw [List.mem_singleton.mp hd]
      exact nofun

end Course

/-! ## Who still stands in the way -/

/-- The log tells of the end of a task. -/
def Over (log : List Entry) (task : Nat) : Prop :=
  ∃ e ∈ log, e.task = task ∧ e.event ≠ .began

/-- The request waits, or it has the turn. -/
def Machine.Live (m : Machine) (r : Request) : Prop :=
  r ∈ m.waiting ∨ ∃ t, m.turn = some t ∧ t.request = r

theorem Over.append {log : List Entry} {task : Nat} (h : Over log task) (extra : List Entry) :
    Over (log ++ extra) task := by
  obtain ⟨e, he, hrest⟩ := h
  exact ⟨e, List.mem_append_left _ he, hrest⟩

theorem Over.of_snoc {log : List Entry} {e : Entry} {task : Nat} (h : Over (log ++ [e]) task) :
    Over log task ∨ e.task = task ∧ e.event ≠ .began := by
  obtain ⟨d, hd, hrest⟩ := h
  rcases List.mem_append.mp hd with hd | hd
  · exact Or.inl ⟨d, hd, hrest⟩
  · exact Or.inr (List.mem_singleton.mp hd ▸ hrest)

namespace Course

/-- A call is over, or it waits or has the turn, and not both. -/
structure Settling (c : Course) : Prop where
  live : ∀ r, c.machine.Live r → ¬ Over c.machine.log r.task
  accounted : ∀ r ∈ c.asked, Over c.machine.log r.task ∨ c.machine.Live r

theorem Linear.live_asked {c : Course} {past : List (Request × Fate)} (hl : c.Linear past)
    {r : Request} (hr : c.machine.Live r) : r ∈ c.asked := by
  refine hl.mem_asked ?_
  rcases hr with hr | ⟨t, ht, rfl⟩
  · exact List.mem_append_right _ hr
  · refine List.mem_append_left _ ?_
    simp [turns_of_some ht]

/-- One task comes to its end, and who else waited or had the turn still does. -/
theorem Settling.ended {c c' : Course} (hs : c.Settling) (hasked : c'.asked = c.asked)
    {r : Request} {event : Event} (hevent : event ≠ .began) {time : Nat}
    (hlog : c'.machine.log = c.machine.log ++ [⟨time, r.task, event⟩])
    (hless : ∀ r', c'.machine.Live r' → c.machine.Live r' ∧ r'.task ≠ r.task)
    (hmore : ∀ r', c.machine.Live r' → r'.task = r.task ∨ c'.machine.Live r') : c'.Settling := by
  constructor
  · intro r' hr' hover
    obtain ⟨hlive, hne⟩ := hless r' hr'
    rw [hlog] at hover
    rcases hover.of_snoc with hold | ⟨heq, -⟩
    · exact hs.live r' hlive hold
    · exact hne heq.symm
  · intro r' hr'
    rw [hasked] at hr'
    rw [hlog]
    rcases hs.accounted r' hr' with hover | hlive
    · exact Or.inl (hover.append _)
    · rcases hmore r' hlive with heq | hlive'
      · rw [heq]
        exact Or.inl ⟨_, List.mem_append_right _ (List.mem_singleton.mpr rfl), rfl, hevent⟩
      · exact Or.inr hlive'

namespace Settling

variable {c : Course} {past : List (Request × Fate)}

theorem aside {c' : Course} (hs : c.Settling) (hl : c.Linear past) (h : Aside c c') :
    c'.Settling := by
  obtain ⟨extra, hlog, hextra⟩ := h.log
  have hlive : ∀ r, c'.machine.Live r ↔ c.machine.Live r := by
    intro r
    rw [Machine.Live, Machine.Live, h.waiting, h.turn]
  constructor
  · intro r hr hover
    rw [hlive] at hr
    obtain ⟨e, he, htask, hevent⟩ := hover
    rw [hlog] at he
    rcases List.mem_append.mp he with he | he
    · exact hs.live r hr ⟨e, he, htask, hevent⟩
    · exact (hextra e he).2 r (hl.live_asked hr) htask.symm
  · intro r hr
    rw [hlog, hlive]
    rw [h.asked] at hr
    exact (hs.accounted r hr).imp_left (·.append extra)

theorem asked (hs : c.Settling) (hn : c.Numbered) {r : Request} (hfresh : r.task = c.fresh) :
    Settling { c with
      machine := c.machine.ask r, fresh := c.fresh + 1, asked := c.asked ++ [r] } := by
  constructor
  · rintro r' (hr' | hr') hover
    · rcases List.mem_append.mp hr' with hr' | hr'
      · exact hs.live r' (Or.inl hr') hover
      · -- The log knows nothing of a number that has not been given away.
        obtain ⟨e, he, htask, -⟩ := hover
        rw [List.mem_singleton.mp hr', hfresh] at htask
        exact Nat.lt_irrefl _ (htask ▸ hn.machine.log e he)
    · exact hs.live r' (Or.inr hr') hover
  · intro r' hr'
    rcases List.mem_append.mp hr' with hr' | hr'
    · rcases hs.accounted r' hr' with hover | hwaits | hturn
      · exact Or.inl hover
      · exact Or.inr (Or.inl (List.mem_append_left _ hwaits))
      · exact Or.inr (Or.inr hturn)
    · exact Or.inr (Or.inl (List.mem_append_right _ hr'))

theorem refused (hs : c.Settling) (hl : c.Linear past) (hn : c.Numbered) {r : Request}
    {rest : List Request} (hfree : c.machine.turn = none)
    (hfront : c.machine.waiting = r :: rest) (failure : Failure) :
    Settling { c with
      machine := { c.machine.note r.task (.ended (.error failure)) with waiting := rest } } := by
  have hevent : Event.ended (.error failure) ≠ .began := nofun
  refine hs.ended rfl hevent rfl ?_ ?_
  · rintro r' (hr' | ⟨t, ht, -⟩)
    · have hwaits : r' ∈ c.machine.waiting := hfront ▸ List.mem_cons_of_mem _ hr'
      exact ⟨Or.inl hwaits, (hl.behind_front hn hfront r' hr').symm⟩
    · exact absurd (hfree.symm.trans ht) nofun
  · rintro r' (hr' | ⟨t, ht, -⟩)
    · rw [hfront] at hr'
      rcases List.mem_cons.mp hr' with rfl | hr'
      · exact Or.inl rfl
      · exact Or.inr (Or.inl hr')
    · exact absurd (hfree.symm.trans ht) nofun

theorem began (hs : c.Settling) {r : Request} {rest : List Request}
    (hfree : c.machine.turn = none) (hfront : c.machine.waiting = r :: rest) :
    Settling { c with
      machine := { c.machine.begin r with
        turn := some ⟨r, c.machine.now + r.delay⟩, waiting := rest } } := by
  have hlog := Machine.begin_log c.machine r
  -- Whoever was in front has the turn now, so those who are live are the same.
  have hkept : ∀ r', Machine.Live { c.machine.begin r with
      turn := some ⟨r, c.machine.now + r.delay⟩, waiting := rest } r' ↔ c.machine.Live r' := by
    intro r'
    simp only [Machine.Live, hfront, hfree, List.mem_cons, Option.some.injEq, reduceCtorEq,
      false_and, exists_false, or_false, exists_eq_left']
    rw [or_comm, eq_comm]
  constructor
  · intro r' hr' hover
    rw [hkept] at hr'
    rw [show (Machine.log _) = _ from hlog] at hover
    rcases hover.of_snoc with hold | ⟨-, hno⟩
    · exact hs.live r' hr' hold
    · exact hno rfl
  · intro r' hr'
    rw [hkept]
    exact (hs.accounted r' hr').imp_left fun hover => hlog ▸ hover.append _

/-- The turn ends, by its work or by being dropped. -/
theorem turn_ended (hs : c.Settling) (hl : c.Linear past) (hn : c.Numbered) {t : Turn}
    (hturn : c.machine.turn = some t) {event : Event} (hevent : event ≠ .began) {m : Machine}
    (hfree : m.turn = none) (hwaiting : m.waiting = c.machine.waiting)
    (hlog : m.log = c.machine.log ++ [⟨c.machine.now, t.request.task, event⟩]) :
    Settling { c with machine := m } := by
  refine hs.ended rfl hevent hlog ?_ ?_
  · rintro r (hr | ⟨t', ht', -⟩)
    · have hwaits : r ∈ c.machine.waiting := hwaiting ▸ hr
      exact ⟨Or.inl hwaits, (hl.behind_turn hn hturn r hwaits).symm⟩
    · exact absurd (hfree.symm.trans ht') nofun
  · rintro r (hr | ⟨t', ht', rfl⟩)
    · exact Or.inr (Or.inl (hwaiting ▸ hr))
    · cases hturn.symm.trans ht'
      exact Or.inl rfl

theorem lapsed (hs : c.Settling) (hl : c.Linear past) (hn : c.Numbered) {task : Nat}
    (hwaits : ∃ r ∈ c.machine.waiting, r.task = task) :
    Settling { c with
      machine := { c.machine with
        waiting := c.machine.waiting.filter (·.task ≠ task) }.note task .dropped
      lapsed := c.lapsed ++ [task] } := by
  obtain ⟨r, hr, rfl⟩ := hwaits
  have hevent : Event.dropped ≠ .began := nofun
  refine hs.ended rfl hevent rfl ?_ ?_
  · rintro r' (hr' | ⟨t, ht, rfl⟩)
    · obtain ⟨hr', hne⟩ := List.mem_filter.mp hr'
      exact ⟨Or.inl hr', of_decide_eq_true hne⟩
    · exact ⟨Or.inr ⟨t, ht, rfl⟩, hl.behind_turn hn ht r hr⟩
  · rintro r' (hr' | hturn)
    · by_cases htask : r'.task = r.task
      · exact Or.inl htask
      · exact Or.inr (Or.inl (List.mem_filter.mpr ⟨hr', decide_eq_true htask⟩))
    · exact Or.inr (Or.inr hturn)

/-- **The step lemma.** Whatever comes next, every call stays accounted for. -/
theorem effect {c' : Course} (hs : c.Settling) (hl : c.Linear past) (hn : c.Numbered)
    (h : Effect c c') : c'.Settling := by
  cases h with
  | aside h => exact hs.aside hl h
  | asked r hfresh => exact hs.asked hn hfresh
  | refused r rest failure hfree hfront hrefused => exact hs.refused hl hn hfree hfront failure
  | began r rest hfree hfront hruns => exact hs.began hfree hfront
  | completed t hturn =>
      have hevent : Event.ended t.request.outcome ≠ .began := nofun
      exact hs.turn_ended hl hn hturn hevent rfl (Machine.finish_waiting _ _)
        (Machine.finish_log _ _)
  | cut t hturn =>
      have hevent : Event.dropped ≠ .began := nofun
      exact hs.turn_ended hl hn hturn hevent rfl rfl rfl
  | lapsed task hwaits => exact hs.lapsed hl hn hwaits

end Settling

/-! ## Runs -/

/-- All invariants of a course. -/
structure Sound (c : Course) : Prop where
  numbered : c.Numbered
  linear : ∃ past, c.Linear past
  paced : Paced c.machine
  settling : c.Settling

theorem Sound.start : Sound {} := by
  refine ⟨.start, ⟨[], .start⟩, ⟨?_, ?_⟩, ⟨?_, nofun⟩⟩
  · exact fun p e hb => absurd hb.1 (by simp)
  · exact fun p q e e' _ hb => absurd hb.1 (by simp)
  · rintro r (hr | ⟨t, ht, -⟩)
    · cases hr
    · cases ht

theorem Sound.step {c : Course} (hs : c.Sound) (mv : Move) : (c.step mv).Sound := by
  obtain ⟨past, hl⟩ := hs.linear
  have heffect := hs.numbered.effect mv
  exact ⟨hs.numbered.step mv, hl.effect hs.numbered heffect, paced_effect hs.paced heffect,
    hs.settling.effect hl hs.numbered heffect⟩

theorem Sound.run {c : Course} (hs : c.Sound) (moves : List Move) : (c.run moves).Sound := by
  induction moves generalizing c with
  | nil => exact hs
  | cons mv rest ih => exact ih (hs.step mv)

/-- Turns are given and work ends until nobody waits. The induction is on the number of those who
wait: whoever is in front has had a turn after two more moves. -/
theorem exists_drained (n : Nat) (c : Course) (hlen : c.machine.waiting.length = n) :
    ∃ moves, (∀ mv ∈ moves, mv = .take ∨ mv = .complete) ∧ (c.run moves).asked = c.asked ∧
      (c.run moves).machine.turn = none ∧ (c.run moves).machine.waiting = [] := by
  have hcomplete : ∀ m : Machine, m.complete.turn = none ∧ m.complete.waiting = m.waiting := by
    intro m
    unfold Machine.complete
    split
    · exact ⟨rfl, Machine.finish_waiting _ _⟩
    · exact ⟨‹_›, rfl⟩
  obtain ⟨hfree, hkept⟩ := hcomplete c.machine
  -- Each round ends the work under way and gives the turn to the one in front.
  induction n generalizing c with
  | zero =>
      exact ⟨[.complete], by simp, rfl, hfree, hkept.trans (List.length_eq_zero_iff.mp hlen)⟩
  | succ n ih =>
      have htake : (c.machine.complete.take).waiting.length = n := by
        unfold Machine.take
        cases hwaiting : c.machine.waiting with
        | nil => simp [hwaiting] at hlen
        | cons r rest =>
            rw [hwaiting] at hlen
            simp only [hfree, hkept, hwaiting]
            split <;> exact Nat.succ.inj hlen
      obtain ⟨moves, hmoves, hasked, hdone⟩ := ih ((c.step .complete).step .take) htake
        (hcomplete _).1 (hcomplete _).2
      refine ⟨.complete :: .take :: moves, ?_, hasked, hdone⟩
      intro mv hmv
      simp only [List.mem_cons] at hmv
      rcases hmv with rfl | rfl | hmv
      · exact Or.inr rfl
      · exact Or.inl rfl
      · exact hmoves mv hmv

/-! ## Linearizability -/

/-- What is seen of the calls of a course. -/
structure Linearizes (c : Course) : Prop where
  /-- The work of one call is over before the work of another begins. -/
  apart : ∀ p q e e', p < q → Begins c.machine.log p e → Begins c.machine.log q e' →
    EndsBetween c.machine.log p q e e'.time
  /-- Status, events and verdicts are those of the calls taken one after the other, in the order in
  which they were made less those that were dropped while they waited. -/
  sequential : ∃ past, c.Linear past ∧ ∀ p ∈ c.turns past,
    c.machine.verdict? p.1.task = (sequential (c.turns past)).verdict? p.1.task
  /-- Where all calls are over, nobody has the turn and nobody waits. -/
  free : (∀ r ∈ c.asked, Over c.machine.log r.task) →
    c.machine.turn = none ∧ c.machine.waiting = []
  /-- There the next call has its turn at once. -/
  next : (∀ r ∈ c.asked, Over c.machine.log r.task) → ∀ r, (c.machine.ask r).take.waiting = [] ∧
    ((∃ t, (c.machine.ask r).take.turn = some t ∧ t.request = r) ∨
      Over (c.machine.ask r).take.log r.task)
  /-- Wherever the course stands, turns given and work ended bring all calls to their end. -/
  drains : ∃ moves, (∀ mv ∈ moves, mv = .take ∨ mv = .complete) ∧
    ∀ r ∈ c.asked, Over (c.run moves).machine.log r.task

theorem Sound.free {c : Course} (hs : c.Sound)
    (hover : ∀ r ∈ c.asked, Over c.machine.log r.task) :
    c.machine.turn = none ∧ c.machine.waiting = [] := by
  obtain ⟨past, hl⟩ := hs.linear
  -- Whoever waits or has the turn has been asked for, and is over by assumption, which is absurd.
  have hdead : ∀ r, ¬ c.machine.Live r := fun r hr =>
    hs.settling.live r hr (hover r (hl.live_asked hr))
  constructor
  · cases hturn : c.machine.turn with
    | none => rfl
    | some t => exact absurd (Or.inr ⟨t, hturn, rfl⟩) (hdead t.request)
  · exact List.eq_nil_iff_forall_not_mem.mpr fun r hr => hdead r (Or.inl hr)

/-- A call that is made when nobody has the turn and nobody waits. -/
theorem take_ask {m : Machine} (hfree : m.turn = none) (hwaiting : m.waiting = []) (r : Request) :
    (m.ask r).take.waiting = [] ∧ ((∃ t, (m.ask r).take.turn = some t ∧ t.request = r) ∨
      Over (m.ask r).take.log r.task) := by
  simp only [Machine.take, Machine.ask, hfree, hwaiting, List.nil_append]
  split
  · refine ⟨rfl, Or.inr ⟨_, List.mem_append_right _ (List.mem_singleton.mpr rfl), rfl, ?_⟩⟩
    intro h
    cases h
  · exact ⟨rfl, Or.inl ⟨_, rfl, rfl⟩⟩

theorem Sound.linearizes {c : Course} (hs : c.Sound) : c.Linearizes := by
  obtain ⟨past, hl⟩ := hs.linear
  refine ⟨hs.paced.apart, ⟨past, hl, fun p hp => ?_⟩, hs.free, fun hover r => ?_, ?_⟩
  · exact (Machine.verdict?_eq (List.mem_map_of_mem hp)).trans (by rw [hl.events])
  · obtain ⟨hfree, hwaiting⟩ := hs.free hover
    exact take_ask hfree hwaiting r
  · obtain ⟨moves, hmoves, hasked, hturn, hwaiting⟩ := exists_drained _ c rfl
    refine ⟨moves, hmoves, fun r hr => ?_⟩
    rcases (hs.run moves).settling.accounted r (hasked ▸ hr) with hover | hr' | ⟨t, ht, -⟩
    · exact hover
    · exact absurd (hwaiting ▸ hr') List.not_mem_nil
    · exact absurd (hturn.symm.trans ht) nofun

/-- **Linearizability.** In every run of a lifecycle work does not overlap, what is seen at any
moment is what the calls show one after the other, and a call that is over stands in nobody's way,
however it came to its end. Scripted runs are such runs. -/
theorem transitions_linearize :
    (∀ moves, Linearizes (run {} moves)) ∧
      ∀ steps, ∃ moves, (run {} moves).machine = (Timeline.after {} steps).machine ∧
        (Timeline.after {} steps).machine.Settled :=
  ⟨fun moves => (Sound.start.run moves).linearizes, Timeline.exists_moves⟩

end Course

end KeyLease.Lifecycle
