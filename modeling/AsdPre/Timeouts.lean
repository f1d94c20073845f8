import AsdPre.DeltaQueue
import AsdPre.Traces

/-! The timers of the network stack, which the main loop runs. They wait in a delta
queue of 32-bit times; `msTicks` is the clock, read modulo its width. A timer that has
run registers itself again. The interrupt for packets, which starts the TCP timer, is
taken to come only between calls of `sys_check_timeouts`: nothing in the source keeps it
out of one, and inside it the queue is not always whole. -/
namespace AsdPre.Timeouts

open DeltaQueue

/-- The handlers that this build registers. -/
inductive Timer where
  | tcp
  | arp
  | dhcpCoarse
  | dhcpFine
  deriving DecidableEq, Repr

/-- `TCP_TMR_INTERVAL`, `ARP_TMR_INTERVAL`, `DHCP_COARSE_TIMER_MSECS` and
`DHCP_FINE_TIMER_MSECS` -/
def Timer.interval : Timer → BitVec 32
  | .tcp => 250
  | .arp => 1000
  | .dhcpCoarse => 60000
  | .dhcpFine => 500

/-- `struct sys_timeo` -/
structure Timeo where
  time : BitVec 32
  timer : Timer
  deriving DecidableEq, Repr

/-- `clock` counts the milliseconds from the start and `last` is the count that
`timeouts_last_time` stands for; the variables hold their low 32 bits. `pcbs` is
whether there are connections or ones that wait to be forgotten, and `calls` a log of
the handlers' calls. -/
structure State where
  clock : Nat
  last : Nat
  nextTimeout : List Timeo
  tcpTimerActive : Bool
  pcbs : Bool
  calls : List (Nat × Timer)

def State.sysNow (s : State) : BitVec 32 := BitVec.ofNat 32 s.clock

def State.timeoutsLastTime (s : State) : BitVec 32 := BitVec.ofNat 32 s.last

/-- The loop of `sys_timeout` from the entry `t` on. -/
def link (time : BitVec 32) (timer : Timer) (t : Timeo) : List Timeo → List Timeo
  | [] => [t, ⟨time - t.time, timer⟩]
  | next :: rest =>
    let time := time - t.time
    if next.time > time then t :: ⟨time, timer⟩ :: { next with time := next.time - time } :: rest
    else t :: link time timer next rest

/-- `memory` is whether the allocation of the entry succeeds. -/
def sysTimeout (s : State) (memory : Bool) (msecs : BitVec 32) (timer : Timer) : State :=
  if memory then
    match s.nextTimeout with
    | [] => { s with last := s.clock, nextTimeout := [⟨msecs + 0, timer⟩] }
    | first :: rest =>
      let diff := s.sysNow - s.timeoutsLastTime
      let time := msecs + diff
      if first.time > msecs then
        { s with nextTimeout := ⟨time, timer⟩ :: { first with time := first.time - msecs } :: rest }
      else { s with nextTimeout := link time timer first rest }
  else s

/-- What happens while a handler works before it registers itself again: time passes,
connections remain or are given up, and memory is there or not. -/
structure Turn where
  pause : Nat
  remain : Bool
  memory : Bool

/-- `tcpip_tcp_timer`, `arp_timer`, `dhcp_timer_coarse` and `dhcp_timer_fine` -/
def Timer.handler (s : State) (turn : Turn) (timer : Timer) : State :=
  let s := { s with
    calls := s.calls ++ [(s.clock, timer)]
    clock := s.clock + turn.pause
    pcbs := s.pcbs && turn.remain }
  match timer with
  | .tcp =>
    if s.pcbs then sysTimeout s turn.memory Timer.tcp.interval .tcp
    else { s with tcpTimerActive := false }
  | timer => sysTimeout s turn.memory timer.interval timer

def tcpTimerNeeded (s : State) (memory : Bool) : State :=
  if !s.tcpTimerActive && s.pcbs then
    sysTimeout { s with tcpTimerActive := true } memory Timer.tcp.interval .tcp
  else s

/-- The loop of `sys_check_timeouts`; whether it has ended. -/
def checkLoop : Nat → (Nat → Turn) → BitVec 32 → State → State × Bool
  | 0, _, _, s => (s, false)
  | fuel + 1, turns, diff, s =>
    match s.nextTimeout with
    | [] => (s, true)
    | first :: rest =>
      if first.time ≤ diff then
        checkLoop fuel (fun i => turns (i + 1)) (diff - first.time)
          (first.timer.handler { s with nextTimeout := rest, last := s.last + first.time.toNat } (turns 0))
      else (s, true)

def sysCheckTimeouts (s : State) (turns : Nat → Turn) : State × Bool :=
  checkLoop (s.nextTimeout.length + 1) turns (s.sysNow - s.timeoutsLastTime) s

/-- With the milliseconds that pass before each of its readings of the clock. -/
def sysTimeoutsInit (clock : Nat) (pauses : Fin 3 → Nat) : State :=
  let s : State := ⟨clock, 0, [], false, false, []⟩
  let s := sysTimeout s true Timer.arp.interval .arp
  let s := sysTimeout { s with clock := s.clock + pauses 0 } true Timer.dhcpCoarse.interval .dhcpCoarse
  let s := sysTimeout { s with clock := s.clock + pauses 1 } true Timer.dhcpFine.interval .dhcpFine
  let s := { s with clock := s.clock + pauses 2 }
  { s with last := s.clock }

/-- A tick; connections that come or go, or the start of the TCP timer, in the interrupt
for packets; or the main loop's check. -/
inductive Event where
  | sysTick
  | pcbs (present : Bool)
  | tcpTimerNeeded (memory : Bool)
  | netPeriodic (turns : Nat → Turn)

def step (s : State) : Event → State
  | .sysTick => { s with clock := s.clock + 1 }
  | .pcbs present => { s with pcbs := present }
  | .tcpTimerNeeded memory => tcpTimerNeeded s memory
  | .netPeriodic turns => (sysCheckTimeouts s turns).1

def run (s : State) (events : List Event) : State := Traces.run step s events

section Queue

/-! The queue as a list of times on the clock. -/

def widths (q : List Timeo) : List (Nat × Timer) := q.map fun t => (t.time.toNat, t.timer)

def agenda (s : State) : List (Nat × Timer) := times s.last (widths s.nextTimeout)

theorem widths_link (time : BitVec 32) (timer : Timer) (t : Timeo) (rest : List Timeo)
    (behind : t.time ≤ time) :
    widths (link time timer t rest) = DeltaQueue.insert time.toNat timer (widths (t :: rest)) := by
  induction rest generalizing time t with
  | nil =>
    simp [link, widths, DeltaQueue.insert, BitVec.toNat_sub_of_le behind, BitVec.le_def.mp behind]
  | cons next rest ih =>
    have remains := BitVec.toNat_sub_of_le behind
    have first : DeltaQueue.insert time.toNat timer (widths (t :: next :: rest)) =
        (t.time.toNat, t.timer) ::
          DeltaQueue.insert (time - t.time).toNat timer (widths (next :: rest)) := by
      simp [widths, DeltaQueue.insert, remains, BitVec.le_def.mp behind]
    rw [first, link]
    split
    · next sooner =>
      have sooner : time - t.time < next.time := sooner
      have apart := BitVec.toNat_sub_of_le (BitVec.le_of_lt sooner)
      have notAfter : ¬ next.time.toNat ≤ (time - t.time).toNat := Nat.not_le.mpr sooner
      simp only [widths, List.map_cons, DeltaQueue.insert, if_neg notAfter, apart]
    · next notSooner =>
      rw [← ih _ _ (BitVec.not_lt.mp notSooner)]
      rfl

/-- The difference of two readings of the clock, wrapped or not. -/
theorem toNat_diff (s : State) (behind : s.last ≤ s.clock) (small : s.clock - s.last < 2 ^ 32) :
    (s.sysNow - s.timeoutsLastTime).toNat = s.clock - s.last := by
  have reading : s.sysNow = BitVec.ofNat 32 (s.clock - s.last) + s.timeoutsLastTime := by
    rw [State.sysNow, State.timeoutsLastTime, ← BitVec.ofNat_add, Nat.sub_add_cancel behind]
  rw [reading, BitVec.add_sub_cancel, BitVec.toNat_ofNat, Nat.mod_eq_of_lt small]

/-- By how much a registration puts off the timers that wait: an entry that goes to the
front is compared and subtracted without the time since `timeouts_last_time`. -/
def delay (s : State) (msecs : BitVec 32) : Nat :=
  match s.nextTimeout with
  | [] => 0
  | first :: _ => if first.time > msecs then s.clock - s.last else 0

theorem sysTimeout_spec (s : State) (msecs : BitVec 32) (timer : Timer) (behind : s.last ≤ s.clock)
    (timely : s.clock - s.last + msecs.toNat < 2 ^ 32) :
    ∃ last q, sysTimeout s true msecs timer = { s with last := last, nextTimeout := q } ∧
      (last ≤ s.clock ∧ (s.nextTimeout ≠ [] → last = s.last)) ∧
      (times last (widths q)).Perm
        ((s.clock + msecs.toNat, timer) :: later (delay s msecs) (agenda s)) := by
  have elapsed := toNat_diff s behind (by omega)
  have time : (msecs + (s.sysNow - s.timeoutsLastTime)).toNat = msecs.toNat + (s.clock - s.last) := by
    rw [BitVec.toNat_add, elapsed, Nat.mod_eq_of_lt (by omega)]
  have due : s.last + (msecs.toNat + (s.clock - s.last)) = s.clock + msecs.toNat := by omega
  rw [sysTimeout, if_pos rfl, agenda, delay]
  split
  · next empty =>
    refine ⟨s.clock, _, rfl, ⟨le_rfl, fun waiting => absurd empty waiting⟩, ?_⟩
    simp [widths, empty]
  · next first rest waiting =>
    simp only [waiting]
    split
    · next sooner =>
      have sooner : msecs < first.time := sooner
      have apart := BitVec.toNat_sub_of_le (BitVec.le_of_lt sooner)
      have before : msecs.toNat < first.time.toNat := sooner
      refine ⟨s.last, _, rfl, ⟨behind, fun _ => rfl⟩, .of_eq ?_⟩
      simp only [widths, List.map_cons, times_cons, time, due, apart]
      have put : s.clock + msecs.toNat + (first.time.toNat - msecs.toNat) =
          s.last + first.time.toNat + (s.clock - s.last) := by omega
      rw [put, times_add]
      rfl
    · next notSooner =>
      have notSooner : first.time.toNat ≤ msecs.toNat := BitVec.not_lt.mp notSooner
      refine ⟨s.last, _, rfl, ⟨behind, fun _ => rfl⟩, ?_⟩
      rw [widths_link _ _ _ _ (BitVec.le_def.mpr (by omega)), time, later_zero, ← due]
      exact times_insert _ _ _ _

end Queue

section Waiting

/-! What holds of the timers at every moment, and what a call of a handler does to it. -/

/-- A time at which a timer may be called: an interval after the start and after each
of its calls so far. -/
def Waited (start : Nat) (calls : List (Nat × Timer)) (timer : Timer) (t : Nat) : Prop :=
  ∀ c, c = start ∨ (c, timer) ∈ calls → c + timer.interval.toNat ≤ t

/-- The timers that wait. -/
def timers (s : State) : List Timer := s.nextTimeout.map Timeo.timer

/-- No timer waits twice, the TCP timer waits only while it is marked as active, and
none waits for a time that is too early. -/
structure Waiting (start : Nat) (s : State) : Prop where
  started : start ≤ s.clock
  behind : s.last ≤ s.clock
  once : (timers s).Nodup
  marked : .tcp ∈ timers s → s.tcpTimerActive = true
  waited : ∀ t timer, (t, timer) ∈ agenda s → Waited start s.calls timer t
  past : ∀ c timer, (c, timer) ∈ s.calls → c ≤ s.clock
  spaced : ∀ before c timer after, s.calls = before ++ (c, timer) :: after → Waited start before timer c

/-- Each timer that should wait does. -/
def Complete (s : State) : Prop := ∀ timer, (timer = .tcp → s.tcpTimerActive = true) → timer ∈ timers s

variable {start : Nat} {s : State}

theorem timers_eq (s : State) : timers s = (agenda s).map Prod.snd := by
  simp [timers, agenda, snd_times, widths]

theorem Waited.mono {calls : List (Nat × Timer)} {timer : Timer} {t t' : Nat}
    (waited : Waited start calls timer t) (later : t ≤ t') : Waited start calls timer t' :=
  fun c called => (waited c called).trans later

/-- After a call of another timer. -/
theorem Waited.other {calls : List (Nat × Timer)} {timer other : Timer} {t : Nat}
    (waited : Waited start calls timer t) (different : other ≠ timer) (c : Nat) :
    Waited start (calls ++ [(c, other)]) timer t := by
  intro c' called
  apply waited
  simpa [different.symm] using called

/-- Now and an interval is late enough for any timer. -/
theorem Waiting.interval_later (w : Waiting start s) (timer : Timer) :
    Waited start s.calls timer (s.clock + timer.interval.toNat) := by
  intro c called
  have early : c ≤ s.clock := by
    rcases called with rfl | logged
    · exact w.started
    · exact w.past c timer logged
  omega

/-- A registration of a timer that does not wait. -/
theorem Waiting.sysTimeout (w : Waiting start s) (timer : Timer)
    (timely : s.clock - s.last + timer.interval.toNat < 2 ^ 32)
    (active : timer = .tcp → s.tcpTimerActive = true) (absent : timer ∉ timers s) :
    ∃ last q, Timeouts.sysTimeout s true timer.interval timer = { s with last := last, nextTimeout := q } ∧
      (s.nextTimeout ≠ [] → last = s.last) ∧ Waiting start { s with last := last, nextTimeout := q } ∧
      (timers { s with last := last, nextTimeout := q }).Perm (timer :: timers s) := by
  obtain ⟨last, q, same, ⟨behind, kept⟩, perm⟩ := sysTimeout_spec s timer.interval timer w.behind timely
  have names : (timers { s with last := last, nextTimeout := q }).Perm (timer :: timers s) := by
    have mapped := perm.map Prod.snd
    rw [List.map_cons, snd_later] at mapped
    rwa [timers_eq, timers_eq s]
  refine ⟨last, q, same, kept, ⟨w.started, behind, ?_, ?_, ?_, w.past, w.spaced⟩, names⟩
  · exact names.nodup_iff.mpr (List.nodup_cons.mpr ⟨absent, w.once⟩)
  · intro member
    rcases List.mem_cons.mp (names.mem_iff.mp member) with new | old
    · exact active new.symm
    · exact w.marked old
  · intro t other member
    rcases List.mem_cons.mp (perm.mem_iff.mp member) with new | old
    · obtain ⟨rfl, rfl⟩ := Prod.mk.inj new
      exact w.interval_later other
    · obtain ⟨u, waits, rfl⟩ := mem_later.mp old
      exact (w.waited u other waits).mono (Nat.le_add_right _ _)

/-- The state in which a handler registers its timer again. -/
def called (s : State) (first : Timeo) (rest : List Timeo) (turn : Turn) : State :=
  { s with
    last := s.last + first.time.toNat
    nextTimeout := rest
    calls := s.calls ++ [(s.clock, first.timer)]
    clock := s.clock + turn.pause
    pcbs := s.pcbs && turn.remain }

theorem agenda_called {first : Timeo} {rest : List Timeo} (front : s.nextTimeout = first :: rest)
    (turn : Turn) :
    agenda s = (s.last + first.time.toNat, first.timer) :: agenda (called s first rest turn) := by
  simp [agenda, front, widths, called]

theorem agenda_first {first : Timeo} {rest : List Timeo} (front : s.nextTimeout = first :: rest)
    {t : Nat} {timer : Timer} (member : (t, timer) ∈ agenda s) : s.last + first.time.toNat ≤ t := by
  simp only [agenda, front, widths, List.map_cons, times_cons] at member
  rcases List.mem_cons.mp member with here | behind
  · exact (Prod.mk.inj here).1.ge
  · exact base_le_of_mem behind

theorem timers_called {first : Timeo} {rest : List Timeo} (front : s.nextTimeout = first :: rest)
    (turn : Turn) : timers s = first.timer :: timers (called s first rest turn) := by
  simp [timers, front, called]

/-- The first timer is called when its time has come. -/
theorem Waiting.called (w : Waiting start s) {first : Timeo} {rest : List Timeo}
    (front : s.nextTimeout = first :: rest) (due : s.last + first.time.toNat ≤ s.clock) (turn : Turn) :
    Waiting start (called s first rest turn) ∧ first.timer ∉ timers (called s first rest turn) := by
  have once := w.once
  rw [timers_called front turn] at once
  obtain ⟨absent, others⟩ := List.nodup_cons.mp once
  have ready : Waited start s.calls first.timer s.clock := by
    refine (w.waited (s.last + first.time.toNat) first.timer ?_).mono due
    rw [agenda_called front turn]
    exact List.mem_cons_self ..
  refine ⟨⟨?_, ?_, others, fun member => ?_, fun t timer member => ?_, fun c timer logged => ?_, ?_⟩, absent⟩
  · exact w.started.trans (Nat.le_add_right _ _)
  · exact due.trans (Nat.le_add_right _ _)
  · apply w.marked
    rw [timers_called front turn]
    exact List.mem_cons_of_mem _ member
  · have different : first.timer ≠ timer := by
      rintro rfl
      apply absent
      rw [timers_eq]
      exact List.mem_map_of_mem (f := Prod.snd) member
    refine (w.waited t timer ?_).other different _
    rw [agenda_called front turn]
    exact List.mem_cons_of_mem _ member
  · rcases List.mem_append.mp logged with before | now
    · exact (w.past c timer before).trans (Nat.le_add_right _ _)
    · obtain ⟨rfl, rfl⟩ := Prod.mk.inj (List.mem_singleton.mp now)
      exact Nat.le_add_right _ _
  · intro before c timer after split
    rcases List.eq_nil_or_concat after with rfl | ⟨front, last, rfl⟩
    · obtain ⟨rfl, single⟩ := List.append_inj' split rfl
      obtain ⟨rfl, rfl⟩ := Prod.mk.inj (List.cons.inj single).1
      exact ready
    · rw [List.concat_eq_append, ← List.cons_append, ← List.append_assoc] at split
      exact w.spaced before c timer front (List.append_inj' split rfl).1

/-- How many timers have to be called by a time. -/
def dueBy (now : Nat) (s : State) : Nat := (agenda s).countP fun e => e.1 ≤ now

theorem dueBy_sysTimeout {now : Nat} (s : State) (timer : Timer) (behind : s.last ≤ s.clock)
    (timely : s.clock - s.last + timer.interval.toNat < 2 ^ 32) (passed : now ≤ s.clock) :
    dueBy now (sysTimeout s true timer.interval timer) ≤ dueBy now s := by
  obtain ⟨last, q, same, -, perm⟩ := sysTimeout_spec s timer.interval timer behind timely
  have positive : 0 < timer.interval.toNat := by cases timer <;> decide
  have notDue : ¬ s.clock + timer.interval.toNat ≤ now := by omega
  rw [same, dueBy, agenda, perm.countP_eq, List.countP_cons_of_neg (by simpa using notDue), later,
    List.countP_map]
  apply List.countP_mono_left
  intro e _ due
  simp only [Function.comp_apply, decide_eq_true_eq] at due ⊢
  omega

theorem interval_le (timer : Timer) : timer.interval.toNat ≤ 60000 := by cases timer <;> decide

theorem handler_eq (s : State) (first : Timeo) (rest : List Timeo) (turn : Turn) :
    first.timer.handler { s with nextTimeout := rest, last := s.last + first.time.toNat } turn =
      if first.timer = .tcp ∧ (s.pcbs && turn.remain) = false then
        { called s first rest turn with tcpTimerActive := false }
      else sysTimeout (called s first rest turn) turn.memory first.timer.interval first.timer := by
  obtain ⟨time, timer⟩ := first
  cases timer with
  | tcp => cases present : s.pcbs && turn.remain <;> simp [Timer.handler, called, present]
  | arp | dhcpCoarse | dhcpFine => simp [Timer.handler, called]

/-- Whatever runs, others wait. -/
theorem Complete.others (complete : Complete s) {first : Timeo} {rest : List Timeo}
    (front : s.nextTimeout = first :: rest) : rest ≠ [] := by
  rintro rfl
  have only (timer : Timer) (untied : timer ≠ .tcp) : timer = first.timer := by
    simpa [timers, front] using complete timer fun tcp => absurd tcp untied
  have same : Timer.arp = .dhcpFine := (only .arp (by decide)).trans (only .dhcpFine (by decide)).symm
  cases same

/-- One turn of the loop: the first timer is called and, if it is still needed, waits
again. -/
theorem Waiting.handler (w : Waiting start s) (complete : Complete s) {first : Timeo} {rest : List Timeo}
    (front : s.nextTimeout = first :: rest) (due : s.last + first.time.toNat ≤ s.clock) (turn : Turn)
    (memory : turn.memory = true)
    (timely : s.clock + turn.pause - (s.last + first.time.toNat) + 60000 < 2 ^ 32) {s' : State}
    (handled : first.timer.handler { s with nextTimeout := rest, last := s.last + first.time.toNat } turn = s') :
    Waiting start s' ∧ Complete s' ∧ s'.clock = s.clock + turn.pause ∧
      s'.last = s.last + first.time.toNat ∧ s'.calls = s.calls ++ [(s.clock, first.timer)] ∧
      ∀ now, now ≤ s.clock → dueBy now s' ≤ dueBy now (Timeouts.called s first rest turn) := by
  obtain ⟨w₁, absent⟩ := w.called front due turn
  have names := timers_called front turn
  have short := interval_le first.timer
  rw [handler_eq, memory] at handled
  split at handled
  · next unneeded =>
    subst handled
    refine ⟨⟨w₁.started, w₁.behind, w₁.once, fun member => ?_, w₁.waited, w₁.past, w₁.spaced⟩,
      fun timer needed => ?_, rfl, rfl, rfl, fun _ _ => le_rfl⟩
    · rw [unneeded.1] at absent
      exact absurd member absent
    · have other : timer ≠ .tcp := fun tcp => by simpa using needed tcp
      have member := complete timer fun tcp => absurd tcp other
      rw [names, unneeded.1] at member
      exact List.mem_of_ne_of_mem other member
  · next again =>
    subst handled
    have inTime : (Timeouts.called s first rest turn).clock - (Timeouts.called s first rest turn).last +
        first.timer.interval.toNat < 2 ^ 32 := by
      simp only [Timeouts.called]
      omega
    have active : first.timer = .tcp → (Timeouts.called s first rest turn).tcpTimerActive = true := by
      intro tcp
      apply w.marked
      rw [names, tcp]
      exact List.mem_cons_self ..
    obtain ⟨last, q, same, kept, w₂, perm⟩ := w₁.sysTimeout first.timer inTime active absent
    have fewer (now : Nat) (passed : now ≤ s.clock) :=
      dueBy_sysTimeout _ first.timer w₁.behind inTime (passed.trans (Nat.le_add_right _ turn.pause))
    rw [same] at fewer ⊢
    refine ⟨w₂, fun timer needed => ?_, rfl, kept (complete.others front), rfl, fewer⟩
    rw [perm.mem_iff, ← names]
    exact complete timer needed

/-- The milliseconds that pass in so many turns. -/
def pauses : (Nat → Turn) → Nat → Nat
  | _, 0 => 0
  | turns, n + 1 => (turns 0).pause + pauses (fun i => turns (i + 1)) n

theorem pauses_instant (turns : Nat → Turn) (instant : ∀ i, (turns i).pause = 0) (n : Nat) : pauses turns n = 0 := by
  induction n generalizing turns with
  | zero => rfl
  | succ n ih => rw [pauses, instant 0, ih _ fun i => instant (i + 1)]

theorem dueBy_called {first : Timeo} {rest : List Timeo} (front : s.nextTimeout = first :: rest)
    (turn : Turn) {now : Nat} (come : s.last + first.time.toNat ≤ now) :
    dueBy now s = dueBy now (called s first rest turn) + 1 := by
  rw [dueBy, agenda_called front turn, List.countP_cons_of_pos (by simpa using come)]
  rfl

/-- The loop calls each timer that is due, and only those. -/
theorem checkLoop_spec (fuel : Nat) (turns : Nat → Turn) (memory : ∀ i, (turns i).memory = true)
    (diff : BitVec 32) (w : Waiting start s) (complete : Complete s) {now : Nat}
    (reading : s.last + diff.toNat = now) (passed : now ≤ s.clock)
    (timely : s.clock + pauses turns fuel - s.last + 60000 < 2 ^ 32) (enough : dueBy now s < fuel) :
    ∃ s', checkLoop fuel turns diff s = (s', true) ∧ Waiting start s' ∧ Complete s' ∧ dueBy now s' = 0 := by
  induction fuel generalizing turns diff s with
  | zero => exact absurd enough (Nat.not_lt_zero _)
  | succ fuel ih =>
    rw [checkLoop]
    split
    · next empty => exact ⟨s, rfl, w, complete, by simp [dueBy, agenda, empty, widths]⟩
    · next first rest front =>
      split
      · next come =>
        have come : first.time.toNat ≤ diff.toNat := come
        have apart := BitVec.toNat_sub_of_le come
        have counted := dueBy_called front (turns 0) (show s.last + first.time.toNat ≤ now by omega)
        simp only [pauses] at timely
        generalize handled : first.timer.handler _ (turns 0) = s₁
        obtain ⟨w₁, complete₁, clock, last, -, fewer⟩ :=
          w.handler complete front (by omega) (turns 0) (memory 0) (by omega) handled
        have less := fewer now passed
        exact ih _ (fun i => memory (i + 1)) _ w₁ complete₁ (by omega) (by omega) (by omega) (by omega)
      · next notYet =>
        have notYet : ¬ first.time.toNat ≤ diff.toNat := notYet
        refine ⟨s, rfl, w, complete, List.countP_eq_zero.mpr fun e member => ?_⟩
        have notBefore := agenda_first front member
        simp only [decide_eq_true_eq]
        omega

theorem Waiting.pass (w : Waiting start s) (n : Nat) : Waiting start { s with clock := s.clock + n } :=
  ⟨w.started.trans (Nat.le_add_right _ _), w.behind.trans (Nat.le_add_right _ _), w.once, w.marked,
    w.waited, fun c timer logged => (w.past c timer logged).trans (Nat.le_add_right _ _), w.spaced⟩

/-- Counting the queue from a later time puts everything off. -/
theorem Waiting.restart (w : Waiting start s) : Waiting start { s with last := s.clock } := by
  have moved : agenda { s with last := s.clock } = later (s.clock - s.last) (agenda s) := by
    rw [agenda, agenda, ← times_add, Nat.add_sub_cancel' w.behind]
  refine ⟨w.started, le_rfl, w.once, w.marked, fun t timer member => ?_, w.past, w.spaced⟩
  rw [moved] at member
  obtain ⟨u, waits, rfl⟩ := mem_later.mp member
  exact (w.waited u timer waits).mono (Nat.le_add_right _ _)

theorem dueBy_le (now : Nat) (s : State) : dueBy now s ≤ s.nextTimeout.length := by
  have counted : dueBy now s ≤ (agenda s).length := List.countP_le_length
  have size := congrArg List.length (timers_eq s)
  simp only [timers, List.length_map] at size
  omega

theorem tcpTimerNeeded_spec (w : Waiting start s) (complete : Complete s)
    (timely : s.clock - s.last + 60000 < 2 ^ 32) :
    Waiting start (tcpTimerNeeded s true) ∧ Complete (tcpTimerNeeded s true) := by
  rw [tcpTimerNeeded]
  split
  · next needed =>
    simp only [Bool.and_eq_true, Bool.not_eq_true'] at needed
    have absent : .tcp ∉ timers s := fun member => by simp [w.marked member] at needed
    have marked : Waiting start { s with tcpTimerActive := true } :=
      ⟨w.started, w.behind, w.once, fun _ => rfl, w.waited, w.past, w.spaced⟩
    have short := interval_le .tcp
    obtain ⟨last, q, same, -, w₁, perm⟩ := marked.sysTimeout .tcp (by simp only; omega) (fun _ => rfl) absent
    rw [same]
    refine ⟨w₁, fun timer _ => perm.mem_iff.mpr ?_⟩
    by_cases tcp : timer = .tcp
    · exact tcp ▸ List.mem_cons_self ..
    · exact List.mem_cons_of_mem _ (complete timer fun same => absurd same tcp)
  · exact ⟨w, complete⟩

theorem sysCheckTimeouts_spec (w : Waiting start s) (complete : Complete s) (turns : Nat → Turn)
    (memory : ∀ i, (turns i).memory = true)
    (timely : s.clock + pauses turns (s.nextTimeout.length + 1) - s.last + 60000 < 2 ^ 32) :
    ∃ s', sysCheckTimeouts s turns = (s', true) ∧ Waiting start s' ∧ Complete s' ∧
      dueBy s.clock s' = 0 := by
  have behind := w.behind
  have diff := toNat_diff s behind (by omega)
  have few := dueBy_le s.clock s
  exact checkLoop_spec _ turns memory _ w complete (by omega) le_rfl timely (by omega)

end Waiting

section Runs

/-- Less than 49 days since `timeouts_last_time`. -/
def Timely (s : State) : Event → Prop
  | .netPeriodic turns => s.clock + pauses turns (s.nextTimeout.length + 1) - s.last + 60000 < 2 ^ 32
  | .tcpTimerNeeded _ => s.clock - s.last + 60000 < 2 ^ 32
  | .sysTick | .pcbs _ => True

/-- Each entry could be allocated. -/
def Plenty : Event → Prop
  | .netPeriodic turns => ∀ i, (turns i).memory = true
  | .tcpTimerNeeded memory => memory = true
  | .sysTick | .pcbs _ => True

theorem init_waiting (clock : Nat) (gaps : Fin 3 → Nat)
    (short : gaps 0 + gaps 1 + gaps 2 + 60000 < 2 ^ 32) :
    Waiting clock (sysTimeoutsInit clock gaps) ∧ Complete (sysTimeoutsInit clock gaps) := by
  have registered : sysTimeout ⟨clock, 0, [], false, false, []⟩ true Timer.arp.interval .arp =
      ⟨clock, clock, [⟨1000, .arp⟩], false, false, []⟩ := rfl
  have one : Waiting clock ⟨clock, clock, [⟨1000, .arp⟩], false, false, []⟩ := by
    refine ⟨le_rfl, le_rfl, List.nodup_singleton _, by simp [timers], fun t timer member c called => ?_,
      by simp, by simp⟩
    obtain ⟨rfl, rfl⟩ : t = clock + 1000 ∧ timer = .arp := by simpa [agenda, widths] using member
    obtain rfl : c = clock := by simpa using called
    exact le_rfl
  obtain ⟨last₂, q₂, registered₂, kept₂, two, perm₂⟩ := (one.pass (gaps 0)).sysTimeout .dhcpCoarse
    (by simp [Timer.interval]; omega) (by simp) (by simp [timers])
  obtain rfl := kept₂ (by simp)
  have waiting₂ : q₂ ≠ [] := by
    rintro rfl
    simpa [timers] using perm₂.length_eq
  obtain ⟨last₃, q₃, registered₃, kept₃, three, perm₃⟩ := (two.pass (gaps 1)).sysTimeout .dhcpFine
    (by simp [Timer.interval]; omega) (by simp)
    (by
      intro member
      simpa [timers] using perm₂.mem_iff.mp member)
  obtain rfl := kept₃ waiting₂
  simp only [sysTimeoutsInit, registered, registered₂, registered₃]
  refine ⟨(three.pass (gaps 2)).restart, fun timer needed => ?_⟩
  have names := perm₃.trans (perm₂.cons _)
  apply names.mem_iff.mpr
  cases timer with
  | tcp => simp at needed
  | arp | dhcpCoarse | dhcpFine => simp [timers]

theorem init_eq (clock : Nat) : sysTimeoutsInit clock (fun _ => 0) =
    ⟨clock, clock, [⟨500, .dhcpFine⟩, ⟨500, .arp⟩, ⟨59000, .dhcpCoarse⟩], false, false, []⟩ := by
  simp [sysTimeoutsInit, sysTimeout, link, State.sysNow, State.timeoutsLastTime, Timer.interval]

theorem step_waiting {start : Nat} (s : State) (e : Event) (kept : Waiting start s ∧ Complete s)
    (ok : Timely s e ∧ Plenty e) : Waiting start (step s e) ∧ Complete (step s e) := by
  obtain ⟨w, complete⟩ := kept
  obtain ⟨timely, plenty⟩ := ok
  cases e with
  | sysTick => exact ⟨w.pass 1, complete⟩
  | pcbs present => exact ⟨⟨w.started, w.behind, w.once, w.marked, w.waited, w.past, w.spaced⟩, complete⟩
  | tcpTimerNeeded memory =>
    cases plenty
    exact tcpTimerNeeded_spec w complete timely
  | netPeriodic turns =>
    obtain ⟨s', checked, w', complete', -⟩ := sysCheckTimeouts_spec w complete turns plenty timely
    rw [step, checked]
    exact ⟨w', complete'⟩

theorem run_waiting (clock : Nat) (gaps : Fin 3 → Nat)
    (short : gaps 0 + gaps 1 + gaps 2 + 60000 < 2 ^ 32) (events : List Event)
    (ok : Traces.Along step (fun s e => Timely s e ∧ Plenty e) (sysTimeoutsInit clock gaps) events) :
    Waiting clock (run (sysTimeoutsInit clock gaps) events) ∧
      Complete (run (sysTimeoutsInit clock gaps) events) :=
  Traces.run_invariant step_waiting (init_waiting clock gaps short) ok

/-- Milliseconds that pass before a check, over the wrap of the clock. -/
def ticksThenCheck (n : Nat) : List Event := List.replicate n .sysTick ++ [.netPeriodic fun _ => ⟨0, false, true⟩]

def nearWrap : Nat := 2 ^ 32 - 100

theorem run_ticks (s : State) (n : Nat) :
    Traces.run step s (List.replicate n .sysTick) = { s with clock := s.clock + n } := by
  induction n generalizing s with
  | zero => rfl
  | succ n ih =>
    rw [List.replicate_succ, Traces.run_cons, ih, step, Nat.add_right_comm, Nat.add_assoc]

theorem along_ticks {ok : State → Event → Prop} (s : State) (n : Nat)
    (each : ∀ k, k < n → ok { s with clock := s.clock + k } .sysTick) :
    Traces.Along step ok s (List.replicate n .sysTick) := by
  induction n generalizing s with
  | zero => trivial
  | succ n ih =>
    refine ⟨each 0 (Nat.succ_pos n), ih _ fun k early => ?_⟩
    have later := each (k + 1) (Nat.succ_lt_succ early)
    rwa [Nat.add_comm k, ← Nat.add_assoc] at later

theorem ticksThenCheck_ok (n : Nat) (short : n < 2 ^ 31) :
    Traces.Along step (fun s e => Timely s e ∧ Plenty e) (sysTimeoutsInit nearWrap fun _ => 0) (ticksThenCheck n) := by
  refine Traces.along_append.mpr ⟨along_ticks _ n fun _ _ => ⟨trivial, trivial⟩, ⟨?_, fun _ => rfl⟩, trivial⟩
  rw [run_ticks, init_eq, Timely]
  rw [pauses_instant _ fun _ => rfl]
  simp only
  omega

/-- However late the main loop comes, and over every wrap of the clock, a timer is
called an interval after the start and after its last call, or later. -/
theorem timers_never_early (clock : Nat) (gaps : Fin 3 → Nat)
    (short : gaps 0 + gaps 1 + gaps 2 + 60000 < 2 ^ 32) (events : List Event)
    (ok : Traces.Along step (fun s e => Timely s e ∧ Plenty e) (sysTimeoutsInit clock gaps) events)
    (before after : List (Nat × Timer)) (c : Nat) (timer : Timer)
    (logged : (run (sysTimeoutsInit clock gaps) events).calls = before ++ (c, timer) :: after) :
    Waited clock before timer c :=
  (run_waiting clock gaps short events ok).1.spaced before c timer after logged

theorem timers_never_early_at_wrap : Waited nearWrap [] .dhcpFine (nearWrap + 700) := by
  have logged : (run (sysTimeoutsInit nearWrap fun _ => 0) (ticksThenCheck 700)).calls =
      [] ++ (nearWrap + 700, .dhcpFine) :: [] := by
    rw [run, ticksThenCheck, Traces.run_append, run_ticks, init_eq]
    rfl
  exact timers_never_early nearWrap (fun _ => 0) (by norm_num) _ (ticksThenCheck_ok 700 (by norm_num)) _ _ _ _ logged

/-- In the same runs each timer waits exactly once, the TCP timer just while it is
marked as active; and a check ends, with every timer called that was due. -/
theorem timers_never_lost (clock : Nat) (gaps : Fin 3 → Nat)
    (short : gaps 0 + gaps 1 + gaps 2 + 60000 < 2 ^ 32) (events : List Event)
    (ok : Traces.Along step (fun s e => Timely s e ∧ Plenty e) (sysTimeoutsInit clock gaps) events) :
    (∀ timer, (timers (run (sysTimeoutsInit clock gaps) events)).count timer =
      if timer = .tcp ∧ (run (sysTimeoutsInit clock gaps) events).tcpTimerActive = false then 0 else 1) ∧
    ∀ turns, Timely (run (sysTimeoutsInit clock gaps) events) (.netPeriodic turns) →
      Plenty (.netPeriodic turns) →
      ∃ s, sysCheckTimeouts (run (sysTimeoutsInit clock gaps) events) turns = (s, true) ∧
        ∀ t timer, (t, timer) ∈ agenda s → (run (sysTimeoutsInit clock gaps) events).clock < t := by
  obtain ⟨w, complete⟩ := run_waiting clock gaps short events ok
  generalize run (sysTimeoutsInit clock gaps) events = s at w complete
  constructor
  · intro timer
    split
    · next stopped =>
      apply List.count_eq_zero_of_not_mem
      rintro member
      rw [stopped.1] at member
      simp [w.marked member] at stopped
    · next needed =>
      have active : timer = .tcp → s.tcpTimerActive = true := by
        intro tcp
        simpa [tcp] using needed
      exact List.count_eq_one_of_mem w.once (complete timer active)
  · intro turns timely plenty
    obtain ⟨s', checked, -, -, none⟩ := sysCheckTimeouts_spec w complete turns plenty timely
    refine ⟨s', checked, fun t timer member => ?_⟩
    have notDue := List.countP_eq_zero.mp none (t, timer) member
    simpa using notDue

theorem timers_never_lost_at_wrap :
    (timers (run (sysTimeoutsInit nearWrap fun _ => 0) (ticksThenCheck 700))).count .arp = 1 ∧
      (timers (run (sysTimeoutsInit nearWrap fun _ => 0) (ticksThenCheck 700))).count .dhcpFine = 1 := by
  obtain ⟨waiting, -⟩ :=
    timers_never_lost nearWrap (fun _ => 0) (by norm_num) (ticksThenCheck 700) (ticksThenCheck_ok 700 (by norm_num))
  exact ⟨by simpa using waiting .arp, by simpa using waiting .dhcpFine⟩

end Runs

section OnTime

/-! A main loop that keeps up. -/

/-- The main loop checks at least once in every millisecond; `checked` is whether it has
since the last tick. -/
def KeepsUp : Bool → List Event → Prop
  | _, [] => True
  | checked, .sysTick :: rest => checked = true ∧ KeepsUp false rest
  | _, .netPeriodic _ :: rest => KeepsUp true rest
  | checked, _ :: rest => KeepsUp checked rest

/-- The handlers take less than a millisecond, and the TCP timer is not started where that
puts the others off. -/
def Quick (s : State) : Event → Prop
  | .sysTick | .pcbs _ => True
  | .tcpTimerNeeded memory =>
    memory = true ∧ (s.tcpTimerActive = false → s.pcbs = true → delay s Timer.tcp.interval = 0)
  | .netPeriodic turns => ∀ i, (turns i).memory = true ∧ (turns i).pause = 0

def Event.isTick : Event → Bool
  | .sysTick => true
  | _ => false

/-- When a timer was called. -/
def callTimes (s : State) (timer : Timer) : List Nat := (s.calls.filter (·.2 = timer)).map Prod.fst

/-- The multiples of the interval after the start. -/
def multiples (start : Nat) (timer : Timer) (n : Nat) : List Nat :=
  (List.range n).map fun i => start + (i + 1) * timer.interval.toNat

/-- No timer is due. -/
def Idle (s : State) : Prop := ∀ t timer, (t, timer) ∈ agenda s → s.clock < t

/-- Nothing is overdue, and each timer but the TCP timer was called at the first
multiples of its interval and waits for the next. -/
structure OnTime (start : Nat) (s : State) : Prop where
  waiting : Waiting start s
  complete : Complete s
  current : ∀ t timer, (t, timer) ∈ agenda s → s.clock ≤ t
  regular : ∀ timer, timer ≠ .tcp → ∃ n, callTimes s timer = multiples start timer n ∧
    start + n * timer.interval.toNat ≤ s.last ∧
    (start + (n + 1) * timer.interval.toNat, timer) ∈ agenda s

variable {start : Nat} {s : State}

theorem delay_now (now : s.clock - s.last = 0) (msecs : BitVec 32) : delay s msecs = 0 := by
  rw [delay]
  split
  · rfl
  · split
    · exact now
    · rfl

/-- The half-second timer keeps `timeouts_last_time` recent. -/
theorem OnTime.recent (o : OnTime start s) : s.clock - s.last ≤ 500 := by
  obtain ⟨n, -, last, next⟩ := o.regular .dhcpFine (by decide)
  have notOverdue := o.current _ _ next
  have interval : Timer.dhcpFine.interval.toNat = 500 := rfl
  rw [interval] at last notOverdue
  omega

/-- A timer waits for one time only. -/
theorem Waiting.unique (w : Waiting start s) {t u : Nat} {timer : Timer} (one : (t, timer) ∈ agenda s)
    (other : (u, timer) ∈ agenda s) : t = u := by
  have once := w.once
  rw [timers_eq] at once
  exact congrArg Prod.fst (List.inj_on_of_nodup_map once one other rfl)

/-- What waits after a call that comes on time: what waited, and the timer that was
called, from now on, unless it is not needed. -/
theorem agenda_handler {first : Timeo} (rest : List Timeo) (now : s.last + first.time.toNat = s.clock)
    (turn : Turn) (memory : turn.memory = true) (instant : turn.pause = 0) :
    (agenda (first.timer.handler { s with nextTimeout := rest, last := s.last + first.time.toNat } turn)).Perm
      (if first.timer = .tcp ∧ (s.pcbs && turn.remain) = false then agenda (called s first rest turn)
        else (s.clock + first.timer.interval.toNat, first.timer) :: agenda (called s first rest turn)) := by
  rw [handler_eq]
  split
  · exact .refl _
  · have elapsed : (called s first rest turn).clock - (called s first rest turn).last = 0 := by
      simp only [called]
      omega
    have short := interval_le first.timer
    have behind : (called s first rest turn).last ≤ (called s first rest turn).clock := by
      simp only [called]
      omega
    obtain ⟨last, q, same, -, perm⟩ :=
      sysTimeout_spec (called s first rest turn) first.timer.interval first.timer behind (by omega)
    rw [delay_now elapsed, later_zero] at perm
    rw [memory, same]
    have clock : (called s first rest turn).clock = s.clock := by simp [called, instant]
    rwa [clock] at perm

theorem OnTime.handler (o : OnTime start s) {first : Timeo} {rest : List Timeo}
    (front : s.nextTimeout = first :: rest) (due : s.last + first.time.toNat ≤ s.clock) (turn : Turn)
    (memory : turn.memory = true) (instant : turn.pause = 0) {s' : State}
    (handled : first.timer.handler { s with nextTimeout := rest, last := s.last + first.time.toNat } turn = s') :
    OnTime start s' ∧ s'.clock = s.clock ∧ s'.last = s.clock := by
  have agendaEq := agenda_called front turn
  have here : (s.last + first.time.toNat, first.timer) ∈ agenda s := by
    rw [agendaEq]
    exact List.mem_cons_self ..
  have now : s.last + first.time.toNat = s.clock := Nat.le_antisymm due (o.current _ _ here)
  have recent := o.recent
  obtain ⟨w, complete, clock, last, calls, -⟩ :=
    o.waiting.handler o.complete front due turn memory (by omega) handled
  have perm := agenda_handler rest now turn memory instant
  rw [handled] at perm
  rw [instant] at clock
  have old (t : Nat) (timer : Timer) (different : timer ≠ first.timer) (member : (t, timer) ∈ agenda s) :
      (t, timer) ∈ agenda s' := by
    rw [agendaEq] at member
    have later := List.mem_of_ne_of_mem (fun same => different (Prod.mk.inj same).2) member
    apply perm.mem_iff.mpr
    split
    · exact later
    · exact List.mem_cons_of_mem _ later
  refine ⟨⟨w, complete, fun t timer member => ?_, fun timer untied => ?_⟩, clock, last.trans now⟩
  · have entry : (t, timer) ∈ agenda s ∨ t = s.clock + first.timer.interval.toNat := by
      have listed := perm.mem_iff.mp member
      split at listed
      · exact .inl (agendaEq ▸ List.mem_cons_of_mem _ listed)
      · rcases List.mem_cons.mp listed with new | kept
        · exact .inr (Prod.mk.inj new).1
        · exact .inl (agendaEq ▸ List.mem_cons_of_mem _ kept)
    rcases entry with waits | new
    · have notOverdue := o.current t timer waits
      omega
    · omega
  · obtain ⟨n, called, past, next⟩ := o.regular timer untied
    by_cases same : timer = first.timer
    · subst same
      have due := o.waiting.unique next here
      refine ⟨n + 1, ?_, by omega, ?_⟩
      · have before : callTimes s' first.timer = callTimes s first.timer ++ [s.clock] := by
          simp [callTimes, calls]
        rw [before, called, multiples, multiples, List.range_succ, List.map_append, List.map_singleton, due, now]
      · have again : (s.clock + first.timer.interval.toNat, first.timer) ∈ agenda s' := by
          apply perm.mem_iff.mpr
          rw [if_neg fun unneeded => untied unneeded.1]
          exact List.mem_cons_self ..
        rw [← now, ← due] at again
        rwa [Nat.succ_mul (n + 1), ← Nat.add_assoc]
    · refine ⟨n, ?_, by omega, old _ timer same next⟩
      rw [← called]
      simp [callTimes, calls, Ne.symm same]

theorem checkLoop_onTime (fuel : Nat) (turns : Nat → Turn)
    (prompt : ∀ i, (turns i).memory = true ∧ (turns i).pause = 0) (diff : BitVec 32)
    (o : OnTime start s) (reading : s.last + diff.toNat = s.clock) :
    OnTime start (checkLoop fuel turns diff s).1 ∧ (checkLoop fuel turns diff s).1.clock = s.clock := by
  induction fuel generalizing turns diff s with
  | zero => exact ⟨o, rfl⟩
  | succ fuel ih =>
    rw [checkLoop]
    split
    · exact ⟨o, rfl⟩
    · next first rest front =>
      split
      · next come =>
        have come : first.time.toNat ≤ diff.toNat := come
        generalize handled : first.timer.handler _ (turns 0) = s₁
        obtain ⟨o₁, clock, last⟩ := o.handler front (by omega) (turns 0) (prompt 0).1 (prompt 0).2 handled
        have here : s.clock ≤ s.last + first.time.toNat := by
          apply o.current _ first.timer
          rw [agenda_called front (turns 0)]
          exact List.mem_cons_self ..
        have apart := BitVec.toNat_sub_of_le come
        rw [← clock]
        exact ih _ (fun i => prompt (i + 1)) _ o₁ (by omega)
      · exact ⟨o, rfl⟩

/-- A check that takes no time leaves no timer that is due. -/
theorem OnTime.check (o : OnTime start s) (turns : Nat → Turn)
    (quick : ∀ i, (turns i).memory = true ∧ (turns i).pause = 0) :
    OnTime start (sysCheckTimeouts s turns).1 ∧ (sysCheckTimeouts s turns).1.clock = s.clock ∧
      Idle (sysCheckTimeouts s turns).1 := by
  have recent := o.recent
  have behind := o.waiting.behind
  have diff := toNat_diff s behind (by omega)
  obtain ⟨onTime, clock⟩ := checkLoop_onTime (s.nextTimeout.length + 1) turns quick
    (s.sysNow - s.timeoutsLastTime) o (by omega)
  obtain ⟨s', checked, -, -, none⟩ := sysCheckTimeouts_spec o.waiting o.complete turns (fun i => (quick i).1)
    (by rw [pauses_instant turns fun i => (quick i).2]; omega)
  refine ⟨onTime, clock, fun t timer member => ?_⟩
  have same : (sysCheckTimeouts s turns).1.clock = s.clock := clock
  rw [checked] at member same ⊢
  have notDue : s.clock < t := by simpa using List.countP_eq_zero.mp none (t, timer) member
  exact lt_of_eq_of_lt same notDue

theorem OnTime.tick (o : OnTime start s) (quiet : Idle s) : OnTime start { s with clock := s.clock + 1 } :=
  ⟨o.waiting.pass 1, o.complete, quiet, o.regular⟩

theorem OnTime.needed (o : OnTime start s)
    (harmless : s.tcpTimerActive = false → s.pcbs = true → delay s Timer.tcp.interval = 0) :
    OnTime start (tcpTimerNeeded s true) ∧ (tcpTimerNeeded s true).clock = s.clock ∧
      (Idle s → Idle (tcpTimerNeeded s true)) := by
  have recent := o.recent
  obtain ⟨w, complete⟩ := tcpTimerNeeded_spec o.waiting o.complete (by omega)
  rw [tcpTimerNeeded] at w complete ⊢
  split
  · next needed =>
    rw [if_pos needed] at w complete
    simp only [Bool.and_eq_true, Bool.not_eq_true'] at needed
    have short := interval_le .tcp
    obtain ⟨last, q, same, ⟨-, kept⟩, perm⟩ := sysTimeout_spec { s with tcpTimerActive := true }
      Timer.tcp.interval .tcp o.waiting.behind (by simp only; omega)
    have alone : delay { s with tcpTimerActive := true } Timer.tcp.interval = 0 :=
      harmless needed.1 needed.2
    have others : s.nextTimeout ≠ [] := by
      intro empty
      simpa [timers, empty] using o.complete .arp (by simp)
    obtain rfl := kept others
    rw [alone, later_zero] at perm
    rw [same] at w complete ⊢
    have entry (t : Nat) (timer : Timer) (member : (t, timer) ∈ times s.last (widths q)) :
        t = s.clock + 250 ∨ (t, timer) ∈ agenda s := by
      rcases List.mem_cons.mp (perm.mem_iff.mp member) with new | old
      · exact .inl (Prod.mk.inj new).1
      · exact .inr old
    refine ⟨⟨w, complete, fun t timer member => ?_, fun timer untied => ?_⟩, rfl, fun idle t timer member => ?_⟩
    · rcases entry t timer member with new | old
      · rw [new]
        exact Nat.le_add_right _ _
      · exact o.current t timer old
    · obtain ⟨n, called, past, next⟩ := o.regular timer untied
      exact ⟨n, called, past, perm.mem_iff.mpr (List.mem_cons_of_mem _ next)⟩
    · rcases entry t timer member with new | old
      · rw [new]
        exact Nat.lt_add_of_pos_right (by decide)
      · exact idle t timer old
  · exact ⟨o, rfl, id⟩

theorem init_agenda (clock : Nat) : agenda (sysTimeoutsInit clock fun _ => 0) =
    [(clock + 500, .dhcpFine), (clock + 1000, .arp), (clock + 60000, .dhcpCoarse)] := by
  have differences : widths [⟨500, .dhcpFine⟩, ⟨500, .arp⟩, ⟨59000, .dhcpCoarse⟩] =
      [(500, .dhcpFine), (500, .arp), (59000, .dhcpCoarse)] := rfl
  have coarse : clock + 500 + 500 + 59000 = clock + 60000 := by omega
  rw [init_eq, agenda]
  simp only [differences, times_cons, times_nil, coarse]

theorem init_onTime (clock : Nat) : OnTime clock (sysTimeoutsInit clock fun _ => 0) := by
  obtain ⟨w, complete⟩ := init_waiting clock (fun _ => 0) (by norm_num)
  have due := init_agenda clock
  have fields := init_eq clock
  refine ⟨w, complete, fun t timer member => ?_, fun timer untied => ⟨0, ?_, ?_, ?_⟩⟩
  · rw [fields] at member ⊢
    exact base_le_of_mem member
  · rw [fields]
    rfl
  · rw [fields, Nat.zero_mul, Nat.add_zero]
  · rw [due]
    cases timer with
    | tcp => exact absurd rfl untied
    | arp | dhcpCoarse | dhcpFine => simp [Timer.interval]

theorem init_idle (clock : Nat) : Idle (sysTimeoutsInit clock fun _ => 0) := by
  intro t timer member
  rw [init_agenda] at member
  have now : (sysTimeoutsInit clock fun _ => 0).clock = clock := by rw [init_eq]
  simp only [List.mem_cons, Prod.mk.injEq, List.not_mem_nil, or_false] at member
  omega

/-- A main loop that checks in every millisecond never lets a due timer wait for the next. -/
theorem run_onTime (events : List Event) {checked : Bool} (o : OnTime start s)
    (idle : checked = true → Idle s) (keepsUp : KeepsUp checked events) (quick : Traces.Along step Quick s events) :
    OnTime start (run s events) ∧ (run s events).clock = s.clock + events.countP Event.isTick := by
  induction events generalizing s checked with
  | nil => exact ⟨o, rfl⟩
  | cons e rest ih =>
    obtain ⟨now, later⟩ := quick
    rw [run, Traces.run_cons]
    cases e with
    | sysTick =>
      obtain ⟨onTime, clock⟩ := ih (o.tick (idle keepsUp.1)) (fun wrong => by cases wrong) keepsUp.2 later
      refine ⟨onTime, ?_⟩
      rw [List.countP_cons_of_pos rfl]
      simp only at clock
      exact clock.trans (by omega)
    | pcbs present =>
      have w := o.waiting
      have same : OnTime start { s with pcbs := present } :=
        ⟨⟨w.started, w.behind, w.once, w.marked, w.waited, w.past, w.spaced⟩, o.complete, o.current, o.regular⟩
      exact ih same idle keepsUp later
    | tcpTimerNeeded memory =>
      obtain ⟨rfl, harmless⟩ := now
      obtain ⟨next, clock, stays⟩ := o.needed harmless
      obtain ⟨onTime, passed⟩ := ih next (fun done => stays (idle done)) keepsUp later
      exact ⟨onTime, passed.trans (by rw [clock]; rfl)⟩
    | netPeriodic turns =>
      obtain ⟨next, clock, none⟩ := o.check turns now
      obtain ⟨onTime, passed⟩ := ih next (fun _ => none) keepsUp later
      exact ⟨onTime, passed.trans (by rw [clock]; rfl)⟩

/-- While the main loop keeps up, each timer but the TCP timer is called at exactly the
multiples of its interval, and at all of them that lie in the past. -/
theorem timers_on_time (clock : Nat) (events : List Event) (keepsUp : KeepsUp true events)
    (quick : Traces.Along step Quick (sysTimeoutsInit clock fun _ => 0) events) (timer : Timer)
    (untied : timer ≠ .tcp) :
    ∃ n, callTimes (run (sysTimeoutsInit clock fun _ => 0) events) timer = multiples clock timer n ∧
      n * timer.interval.toNat ≤ events.countP Event.isTick ∧
      events.countP Event.isTick ≤ (n + 1) * timer.interval.toNat := by
  obtain ⟨o, now⟩ := run_onTime events (init_onTime clock) (fun _ => init_idle clock) keepsUp quick
  have start : (sysTimeoutsInit clock fun _ => 0).clock = clock := by rw [init_eq]
  obtain ⟨n, called, past, next⟩ := o.regular timer untied
  have behind := o.waiting.behind
  have current := o.current _ _ next
  exact ⟨n, called, by omega, by omega⟩

/-- A check after each of so many milliseconds. -/
def checkedTicks (n : Nat) : List Event :=
  (List.replicate n [Event.sysTick, .netPeriodic fun _ => ⟨0, true, true⟩]).flatten

theorem timers_on_time_at_wrap :
    callTimes (run (sysTimeoutsInit nearWrap fun _ => 0) (checkedTicks 501)) .dhcpFine = [nearWrap + 500] := by
  have keepsUp (n : Nat) : KeepsUp true (checkedTicks n) := by
    induction n with
    | zero => trivial
    | succ n ih => exact ⟨rfl, ih⟩
  have ticks (n : Nat) : (checkedTicks n).countP Event.isTick = n := by
    induction n with
    | zero => rfl
    | succ n ih =>
      have next : checkedTicks (n + 1) = .sysTick :: .netPeriodic (fun _ => ⟨0, true, true⟩) :: checkedTicks n := rfl
      rw [next, List.countP_cons_of_pos rfl, List.countP_cons_of_neg (by decide), ih]
  have quick (n : Nat) (s : State) : Traces.Along step Quick s (checkedTicks n) := by
    induction n generalizing s with
    | zero => trivial
    | succ n ih => exact ⟨trivial, fun _ => ⟨rfl, rfl⟩, ih _⟩
  obtain ⟨n, called, low, high⟩ :=
    timers_on_time nearWrap (checkedTicks 501) (keepsUp 501) (quick 501 _) .dhcpFine (by decide)
  have interval : Timer.dhcpFine.interval.toNat = 500 := rfl
  rw [ticks, interval] at low high
  obtain rfl : n = 1 := by omega
  exact called

end OnTime

end AsdPre.Timeouts
