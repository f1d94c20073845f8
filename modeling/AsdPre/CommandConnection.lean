import AsdPre.CommandServer
import AsdPre.Traces

/-! One connection to the command server from its acceptance on: the callbacks the
server registers, and when the TCP stack calls them. The stack polls a connection every
four ticks of its coarse timer, but starts counting again when the peer acknowledges
data; the server closes a connection when it is polled. Once the peer has closed its
side, the stack ignores what it still sends. -/
namespace AsdPre.CommandConnection

open ByteMemory Firmware CommandServer

/-- What `tcp_close` does: fail for lack of memory, or put the connection into a closing
state, or free it. -/
inductive Close where
  | failed
  | closing
  | freed
  deriving DecidableEq, Repr

/-- The parts of `tcp_pcb` the server sets, or the stack looks at before it calls the
server. A callback is either the server's or the null pointer; `gotFin` is whether the
state is `CLOSE_WAIT` or one that comes after it. -/
structure Pcb where
  recv : Bool
  sent : Bool
  errf : Bool
  poll : Bool
  pollinterval : Nat
  polltmr : Nat
  rxClosed : Bool
  gotFin : Bool
  deriving DecidableEq, Repr

/-- `calls` is what the server did with each packet it was given, and `closes` whether
each call of `tcp_close` succeeded. After a fault nothing more happens. -/
structure Connection where
  pcb : Option Pcb
  device : Device
  calls : List (Option Served)
  closes : List Bool
  faulted : Bool

def tcpPoll (pcb : Pcb) (poll : Bool) (interval : Nat) : Pcb :=
  { pcb with poll := poll, pollinterval := interval }

/-- The pcb as the stack allocates it, with `server_accept` called on it. -/
def serverAccept (d : Device) : Connection :=
  let pcb : Pcb := ⟨false, false, false, false, 0, 0, false, false⟩
  let pcb := { pcb with recv := true, sent := true, errf := true }
  { pcb := some (tcpPoll pcb true 4)
    device := d
    calls := []
    closes := []
    faulted := false }

/-- `tcp_close` marks the connection first, whether it succeeds or not. -/
def serverPoll (c : Connection) (pcb : Pcb) (close : Close) : Connection :=
  let pcb := { pcb with recv := false, errf := false, sent := false }
  let pcb := tcpPoll pcb false 0
  let pcb := { pcb with rxClosed := true }
  match close with
  | .failed => { c with pcb := some (tcpPoll pcb true 4), closes := c.closes ++ [false] }
  | .closing => { c with pcb := some pcb, closes := c.closes ++ [true] }
  | .freed => { c with pcb := none, closes := c.closes ++ [true] }

/-- `server_recv` as the stack calls it, without an error; `none` is the end of the
peer's data. -/
def serverRecvData (c : Connection) : Option Segment → Connection
  | none => c
  | some segment =>
    match serverRecv c.device segment.first with
    | none => { c with calls := c.calls ++ [none], faulted := true }
    | some (device, served) => { c with device := device, calls := c.calls ++ [some served] }

/-- What happens to a connection. With a tick comes what `tcp_close` would do then. -/
inductive Event where
  | data (segment : Segment)
  | fin
  | acked
  | tick (close : Close)
  | removed

def Event.isTick : Event → Bool
  | .tick _ => true
  | _ => false

/-- The stack's part, from `tcp_input`, `tcp_receive` and `tcp_slowtmr`. Data for a
connection that the server has closed aborts it. -/
def deliver (c : Connection) (pcb : Pcb) : Event → Connection
  | .data segment =>
    if pcb.gotFin then c
    else if pcb.rxClosed then { c with pcb := none }
    else if pcb.recv then serverRecvData c (some segment)
    else c
  | .fin =>
    if pcb.gotFin then c
    else
      let c := { c with pcb := some { pcb with gotFin := true } }
      if pcb.recv then serverRecvData c none else c
  | .acked => { c with pcb := some { pcb with polltmr := 0 } }
  | .tick close =>
    let pcb := { pcb with polltmr := pcb.polltmr + 1 }
    if pcb.pollinterval ≤ pcb.polltmr then
      let pcb := { pcb with polltmr := 0 }
      if pcb.poll then serverPoll c pcb close else { c with pcb := some pcb }
    else { c with pcb := some pcb }
  | .removed => { c with pcb := none }

def step (c : Connection) (e : Event) : Connection :=
  match c.faulted, c.pcb with
  | false, some pcb => deliver c pcb e
  | _, _ => c

def run (d : Device) (events : List Event) : Connection := Traces.run step (serverAccept d) events

section Idle

/-! How long the peer has been silent, and what it means to be silent too long. -/

def ticks (events : List Event) : Nat := events.countP Event.isTick

/-- At some time four ticks went by without an acknowledgement. -/
def Lapsed (events : List Event) : Prop :=
  ∃ before quiet after, events = before ++ quiet ++ after ∧ Event.acked ∉ quiet ∧ 4 ≤ ticks quiet

def idleAfter (idle : Nat) : Event → Nat
  | .acked => 0
  | .tick _ => idle + 1
  | _ => idle

/-- The ticks since the last acknowledgement. -/
def idleTicks (events : List Event) : Nat := events.foldl idleAfter 0

theorem idleTicks_snoc (events : List Event) (e : Event) :
    idleTicks (events ++ [e]) = idleAfter (idleTicks events) e := by simp [idleTicks]

theorem idleAfter_silent (idle : Nat) {e : Event} (silent : e ≠ .acked) :
    idleAfter idle e = idle + ticks [e] := by
  cases e with
  | acked => exact absurd rfl silent
  | _ => rfl

theorem ticks_append (as bs : List Event) : ticks (as ++ bs) = ticks as + ticks bs :=
  List.countP_append

theorem foldl_idle_quiet (idle : Nat) (quiet : List Event) (silent : Event.acked ∉ quiet) :
    quiet.foldl idleAfter idle = idle + ticks quiet := by
  induction quiet generalizing idle with
  | nil => rfl
  | cons e rest ih =>
    obtain ⟨other, restSilent⟩ := not_or.mp (List.mem_cons.not.mp silent)
    have split := ticks_append [e] rest
    rw [List.singleton_append] at split
    rw [List.foldl_cons, ih _ restSilent, idleAfter_silent idle (Ne.symm other), split, Nat.add_assoc]

theorem ticks_le_idle (before quiet : List Event) (silent : Event.acked ∉ quiet) :
    ticks quiet ≤ idleTicks (before ++ quiet) := by
  rw [idleTicks, List.foldl_append, foldl_idle_quiet _ _ silent]
  omega

/-- The silence that lasts until now. -/
theorem exists_quiet (events : List Event) :
    ∃ before quiet, events = before ++ quiet ∧ Event.acked ∉ quiet ∧ ticks quiet = idleTicks events := by
  induction events using List.reverseRecOn with
  | nil => exact ⟨[], [], rfl, by simp, rfl⟩
  | append_singleton events e ih =>
    obtain ⟨before, quiet, rfl, silent, count⟩ := ih
    by_cases heard : e = .acked
    · subst heard
      exact ⟨before ++ quiet ++ [.acked], [], by simp, by simp, by rw [idleTicks_snoc]; rfl⟩
    · refine ⟨before, quiet ++ [e], by simp, by simp [silent, Ne.symm heard], ?_⟩
      rw [idleTicks_snoc, idleAfter_silent _ heard, ticks_append, count]

theorem lapsed_snoc (events : List Event) (e : Event) :
    Lapsed (events ++ [e]) ↔ Lapsed events ∨ 4 ≤ idleTicks (events ++ [e]) := by
  constructor
  · rintro ⟨before, quiet, after, split, silent, long⟩
    cases after using List.reverseRecOn with
    | nil =>
      right
      rw [split, List.append_nil]
      exact long.trans (ticks_le_idle before quiet silent)
    | append_singleton after last =>
      left
      rw [← List.append_assoc] at split
      exact ⟨before, quiet, after, (List.append_inj_left' split rfl), silent, long⟩
  · rintro (⟨before, quiet, after, rfl, silent, long⟩ | long)
    · exact ⟨before, quiet, after ++ [e], by simp, silent, long⟩
    · obtain ⟨before, quiet, split, silent, count⟩ := exists_quiet (events ++ [e])
      exact ⟨before, quiet, [], by simp [split], silent, by omega⟩

theorem idle_of_not_lapsed {events : List Event} (lively : ¬ Lapsed events) : idleTicks events < 4 := by
  obtain ⟨before, quiet, split, silent, count⟩ := exists_quiet events
  by_contra long
  exact lively ⟨before, quiet, [], by simp [split], silent, by omega⟩

end Idle

section Lifetime

/-- The connection is there and has not been silent too long. -/
def Open (events : List Event) : Prop := ¬ Lapsed events ∧ Event.removed ∉ events

/-- The connection is open, and the peer has not closed its side. -/
def Listening (events : List Event) : Prop := Open events ∧ Event.fin ∉ events

open Classical in
/-- The packets that come in while the stack passes them on, those before left out. -/
noncomputable def heardAfter (before : List Event) : List Event → List Segment
  | [] => []
  | .data segment :: rest =>
    if Listening before then segment :: heardAfter (before ++ [.data segment]) rest
    else heardAfter (before ++ [.data segment]) rest
  | e :: rest => heardAfter (before ++ [e]) rest

noncomputable def heard (events : List Event) : List Segment := heardAfter [] events

/-- The pcb of an open connection. -/
def openPcb (idle : Nat) (gotFin : Bool) : Pcb := ⟨true, true, true, true, 4, idle, false, gotFin⟩

/-- The pcb of a connection that the server has tried to close. -/
def Closed (c : Connection) : Prop :=
  ∀ pcb, c.pcb = some pcb → pcb.rxClosed = true ∧
    (pcb.poll = true → ∀ closed ∈ c.closes, closed = false)

/-- What the calls of `tcp_close` returned: failures, and then at most one success. -/
def ClosedOnce (c : Connection) : Prop :=
  ∃ n, c.closes = List.replicate n false ∨ c.closes = List.replicate n false ++ [true]

structure Tracks (before : List Event) (c : Connection) : Prop where
  running : c.faulted = false → Open before → ∃ gotFin, (gotFin = true ↔ Event.fin ∈ before) ∧
    c.pcb = some (openPcb (idleTicks before) gotFin) ∧ c.closes = []
  ended : c.faulted = false → ¬ Open before → Closed c ∧ (c.pcb ≠ none → Lapsed before)
  once : ClosedOnce c
  late : c.closes ≠ [] → Lapsed before
  due : c.faulted = false → Lapsed before → Event.removed ∉ before → c.closes ≠ []

theorem open_nil : Open [] := by
  refine ⟨?_, by simp⟩
  rintro ⟨before, quiet, after, split, -, long⟩
  obtain ⟨rfl, rfl, rfl⟩ : before = [] ∧ quiet = [] ∧ after = [] := by simpa using split.symm
  simp [ticks] at long

theorem open_snoc (before : List Event) (e : Event) :
    Open (before ++ [e]) ↔ Open before ∧ e ≠ .removed ∧ idleAfter (idleTicks before) e < 4 := by
  rw [Open, Open, lapsed_snoc, idleTicks_snoc, List.mem_append, List.mem_singleton]
  grind

theorem serverPoll_once {c : Connection} (failures : ∀ closed ∈ c.closes, closed = false)
    (pcb : Pcb) (close : Close) : ClosedOnce (serverPoll c pcb close) := by
  have all : c.closes = List.replicate c.closes.length false :=
    List.eq_replicate_iff.mpr ⟨rfl, failures⟩
  cases close with
  | failed =>
    refine ⟨c.closes.length + 1, .inl ?_⟩
    simp only [serverPoll]
    rw [List.replicate_succ', ← all]
  | closing => exact ⟨c.closes.length, .inr (by simp only [serverPoll]; rw [← all])⟩
  | freed => exact ⟨c.closes.length, .inr (by simp only [serverPoll]; rw [← all])⟩

theorem serverPoll_closes (c : Connection) (pcb : Pcb) (close : Close) :
    (serverPoll c pcb close).closes ≠ [] := by
  cases close <;> simp [serverPoll]

theorem serverPoll_closed {c : Connection} (failures : ∀ closed ∈ c.closes, closed = false) (pcb : Pcb)
    (close : Close) : Closed (serverPoll c pcb close) := by
  intro pcb' there
  cases close with
  | failed =>
    cases there
    refine ⟨rfl, fun _ => ?_⟩
    simpa [serverPoll, or_imp, forall_and] using failures
  | closing =>
    cases there
    exact ⟨rfl, fun polled => by simp [tcpPoll] at polled⟩
  | freed => cases there

/-- A packet changes what the server knows, not the connection. -/
theorem serverRecvData_keeps (c : Connection) (segment : Option Segment) :
    (serverRecvData c segment).pcb = c.pcb ∧ (serverRecvData c segment).closes = c.closes := by
  cases segment with
  | none => exact ⟨rfl, rfl⟩
  | some segment =>
    simp only [serverRecvData]
    split <;> exact ⟨rfl, rfl⟩

/-- An event after which the connection is still open. -/
theorem tracks_open {before : List Event} {e : Event} {c : Connection} {idle : Nat} {gotFin : Bool}
    (opened : Open before) (kept : e ≠ .removed) (counted : idleAfter (idleTicks before) e = idle)
    (short : idle < 4) (marked : gotFin = true ↔ Event.fin ∈ before ++ [e])
    (there : c.pcb = some (openPcb idle gotFin)) (none : c.closes = []) : Tracks (before ++ [e]) c := by
  have still : Open (before ++ [e]) := (open_snoc before e).mpr ⟨opened, kept, by rw [counted]; exact short⟩
  refine ⟨fun _ _ => ⟨gotFin, marked, ?_, none⟩, fun _ closed => absurd still closed,
    ⟨0, .inl none⟩, fun some => absurd none some, fun _ lapsed => absurd lapsed still.1⟩
  rw [idleTicks_snoc, counted]
  exact there

theorem tick_open {before : List Event} {c : Connection} {gotFin : Bool} (opened : Open before)
    (marked : gotFin = true ↔ Event.fin ∈ before) (none : c.closes = []) (close : Close) :
    Tracks (before ++ [.tick close]) (deliver c (openPcb (idleTicks before) gotFin) (.tick close)) := by
  have failures : ∀ closed ∈ c.closes, closed = false := by simp [none]
  by_cases long : 4 ≤ idleTicks before + 1
  · have lapsed : Lapsed (before ++ [.tick close]) := by
      rw [lapsed_snoc, idleTicks_snoc]
      exact .inr long
    have closed : ¬ Open (before ++ [.tick close]) := fun opened => opened.1 lapsed
    have polled : deliver c (openPcb (idleTicks before) gotFin) (.tick close) =
        serverPoll c { openPcb (idleTicks before) gotFin with polltmr := 0 } close := by
      simp [deliver, openPcb, long]
    rw [polled]
    exact ⟨fun _ opened => absurd opened closed,
      fun _ _ => ⟨serverPoll_closed failures _ close, fun _ => lapsed⟩,
      serverPoll_once failures _ close, fun _ => lapsed, fun _ _ _ => serverPoll_closes c _ close⟩
  · have waited : deliver c (openPcb (idleTicks before) gotFin) (.tick close) =
        { c with pcb := some (openPcb (idleTicks before + 1) gotFin) } := by
      simp [deliver, openPcb, long]
    rw [waited]
    exact tracks_open opened (by simp) rfl (Nat.not_le.mp long) (by simp [marked]) rfl none

theorem deliver_open {before : List Event} {c : Connection} {gotFin : Bool} (opened : Open before)
    (marked : gotFin = true ↔ Event.fin ∈ before)
    (running : c.pcb = some (openPcb (idleTicks before) gotFin) ∧ c.closes = []) (e : Event) :
    Tracks (before ++ [e]) (deliver c (openPcb (idleTicks before) gotFin) e) := by
  obtain ⟨there, none⟩ := running
  have short := idle_of_not_lapsed opened.1
  cases e with
  | data segment =>
    have kept := serverRecvData_keeps c (some segment)
    have same : gotFin = true ↔ Event.fin ∈ before ++ [.data segment] := by simp [marked]
    by_cases finished : gotFin = true
    · have ignored : deliver c (openPcb (idleTicks before) gotFin) (.data segment) = c := by
        simp [deliver, openPcb, finished]
      rw [ignored]
      exact tracks_open opened (by simp) rfl short same there none
    · have passed : deliver c (openPcb (idleTicks before) gotFin) (.data segment) =
          serverRecvData c (some segment) := by simp [deliver, openPcb, finished]
      rw [passed]
      exact tracks_open opened (by simp) rfl short same (kept.1.trans there) (kept.2.trans none)
  | fin =>
    by_cases finished : gotFin = true
    · have ignored : deliver c (openPcb (idleTicks before) gotFin) .fin = c := by
        simp [deliver, openPcb, finished]
      rw [ignored]
      exact tracks_open opened (by simp) rfl short (by simp [finished]) there none
    · have passed : deliver c (openPcb (idleTicks before) gotFin) .fin =
          { c with pcb := some (openPcb (idleTicks before) true) } := by
        simp [deliver, openPcb, finished, serverRecvData]
      rw [passed]
      exact tracks_open opened (by simp) rfl short (by simp) rfl none
  | acked =>
    have started : deliver c (openPcb (idleTicks before) gotFin) .acked =
        { c with pcb := some (openPcb 0 gotFin) } := rfl
    rw [started]
    exact tracks_open opened (by simp) rfl (Nat.succ_pos 3) (by simp [marked]) rfl none
  | tick close => exact tick_open opened marked none close
  | removed =>
    have closed : ¬ Open (before ++ [.removed]) := by simp [open_snoc]
    exact ⟨fun _ opened => absurd opened closed,
      fun _ _ => ⟨fun pcb there => by simp [deliver] at there, fun some => by simp [deliver] at some⟩,
      ⟨0, .inl none⟩, fun some => absurd none some, fun _ _ kept => absurd (by simp) kept⟩

/-- On a closed connection the stack only waits or polls, and drops it. -/
theorem deliver_cases {c : Connection} {pcb : Pcb} (there : c.pcb = some pcb)
    (rxClosed : pcb.rxClosed = true) (e : Event) :
    (∃ pcb', deliver c pcb e = { c with pcb := pcb' } ∧
      ∀ p, pcb' = some p → p.rxClosed = true ∧ p.poll = pcb.poll) ∨
    pcb.poll = true ∧ ∃ p close, deliver c pcb e = serverPoll c p close := by
  have same : c = { c with pcb := some pcb } := by rw [← there]
  cases e with
  | data segment =>
    cases finished : pcb.gotFin with
    | true => exact .inl ⟨some pcb, by simpa [deliver, finished] using same, by simp [rxClosed]⟩
    | false => exact .inl ⟨none, by simp [deliver, finished, rxClosed], by simp⟩
  | fin =>
    cases finished : pcb.gotFin with
    | true => exact .inl ⟨some pcb, by simpa [deliver, finished] using same, by simp [rxClosed]⟩
    | false =>
      exact .inl ⟨some { pcb with gotFin := true }, by simp [deliver, finished, serverRecvData], by simp [rxClosed]⟩
  | acked => exact .inl ⟨some { pcb with polltmr := 0 }, rfl, by simp [rxClosed]⟩
  | tick close =>
    by_cases due : pcb.pollinterval ≤ pcb.polltmr + 1
    · cases polled : pcb.poll with
      | false => exact .inl ⟨some { pcb with polltmr := 0 }, by simp [deliver, due, polled], by
          simp [rxClosed, polled]⟩
      | true => exact .inr ⟨rfl, { pcb with polltmr := 0 }, close, by simp [deliver, due, polled]⟩
    · exact .inl ⟨some { pcb with polltmr := pcb.polltmr + 1 }, by simp [deliver, due], by
        simp [rxClosed]⟩
  | removed => exact .inl ⟨none, rfl, by simp⟩

theorem lapsed_later {before : List Event} (lapsed : Lapsed before) (e : Event) : Lapsed (before ++ [e]) :=
  (lapsed_snoc before e).mpr (.inl lapsed)

theorem deliver_closed {before : List Event} {c : Connection} {pcb : Pcb} (lapsed : Lapsed before)
    (there : c.pcb = some pcb) (closed : Closed c) (once : ClosedOnce c)
    (due : Event.removed ∉ before → c.closes ≠ []) (e : Event) :
    Tracks (before ++ [e]) (deliver c pcb e) := by
  have still := lapsed_later lapsed e
  have ended : ¬ Open (before ++ [e]) := fun opened => opened.1 still
  have kept (member : Event.removed ∉ before ++ [e]) : Event.removed ∉ before :=
    fun earlier => member (List.mem_append_left _ earlier)
  obtain ⟨rxClosed, failures⟩ := closed pcb there
  rcases deliver_cases there rxClosed e with ⟨pcb', delivered, marked⟩ | ⟨polled, p, close, delivered⟩
  · rw [delivered]
    refine ⟨fun _ opened => absurd opened ended, fun _ _ => ⟨fun p found => ?_, fun _ => still⟩, once,
      fun _ => still, fun _ _ member => due (kept member)⟩
    obtain ⟨markedClosed, samePoll⟩ := marked p found
    exact ⟨markedClosed, fun polled => failures (samePoll ▸ polled)⟩
  · rw [delivered]
    exact ⟨fun _ opened => absurd opened ended,
      fun _ _ => ⟨serverPoll_closed (failures polled) p close, fun _ => still⟩,
      serverPoll_once (failures polled) p close, fun _ => still, fun _ _ _ => serverPoll_closes c p close⟩

theorem step_faulted {c : Connection} (fault : c.faulted = true) (e : Event) : step c e = c := by
  simp [step, fault]

theorem step_tracks {before : List Event} {c : Connection} (tracks : Tracks before c) (e : Event) :
    Tracks (before ++ [e]) (step c e) := by
  have late : c.closes ≠ [] → Lapsed (before ++ [e]) := fun some => lapsed_later (tracks.late some) e
  cases fault : c.faulted with
  | true =>
    rw [step_faulted fault]
    exact ⟨fun fine => by simp [fault] at fine, fun fine => by simp [fault] at fine, tracks.once, late,
      fun fine => by simp [fault] at fine⟩
  | false =>
    by_cases opened : Open before
    · obtain ⟨gotFin, marked, running⟩ := tracks.running fault opened
      have delivered : step c e = deliver c (openPcb (idleTicks before) gotFin) e := by
        simp [step, fault, running.1]
      rw [delivered]
      exact deliver_open opened marked running e
    · obtain ⟨closed, lapsed⟩ := tracks.ended fault opened
      cases there : c.pcb with
      | none =>
        have gone : step c e = c := by simp [step, fault, there]
        have ended : ¬ Open (before ++ [e]) := fun later => opened ((open_snoc before e).mp later).1
        rw [gone]
        refine ⟨fun _ later => absurd later ended, fun _ _ => ⟨closed, fun some => absurd there some⟩,
          tracks.once, late, fun _ _ member => ?_⟩
        have kept : Event.removed ∉ before := fun earlier => member (List.mem_append_left _ earlier)
        have lapsed : Lapsed before := by
          by_contra lively
          exact opened ⟨lively, kept⟩
        exact tracks.due fault lapsed kept
      | some pcb =>
        have delivered : step c e = deliver c pcb e := by simp [step, fault, there]
        rw [delivered]
        have silent := lapsed (by simp [there])
        exact deliver_closed silent there closed tracks.once (tracks.due fault silent) e

theorem run_tracks (d : Device) (events : List Event) : Tracks events (run d events) := by
  induction events using List.reverseRecOn with
  | nil =>
    exact ⟨fun _ _ => ⟨false, by simp, rfl, rfl⟩, fun _ closed => absurd open_nil closed, ⟨0, .inl rfl⟩,
      fun some => absurd rfl some, fun _ lapsed => absurd lapsed open_nil.1⟩
  | append_singleton events e ih =>
    rw [run, Traces.run_append]
    exact step_tracks ih e

theorem run_faulted {c : Connection} (fault : c.faulted = true) (events : List Event) :
    Traces.run step c events = c := by
  induction events with
  | nil => rfl
  | cons e rest ih => rw [Traces.run_cons, step_faulted fault, ih]

theorem serverPoll_keeps (c : Connection) (pcb : Pcb) (close : Close) :
    (serverPoll c pcb close).calls = c.calls ∧ (serverPoll c pcb close).device = c.device ∧
      (serverPoll c pcb close).faulted = c.faulted := by
  cases close <;> exact ⟨rfl, rfl, rfl⟩

theorem step_other (c : Connection) {e : Event} (other : ∀ segment, e ≠ .data segment) :
    (step c e).calls = c.calls ∧ (step c e).device = c.device ∧ (step c e).faulted = c.faulted := by
  simp only [step]
  split
  · cases e with
    | data segment => exact absurd rfl (other segment)
    | fin =>
      simp only [deliver, serverRecvData]
      split
      · exact ⟨rfl, rfl, rfl⟩
      · split <;> exact ⟨rfl, rfl, rfl⟩
    | acked => exact ⟨rfl, rfl, rfl⟩
    | tick close =>
      simp only [deliver]
      split
      · split
        · exact serverPoll_keeps c _ close
        · exact ⟨rfl, rfl, rfl⟩
      · exact ⟨rfl, rfl, rfl⟩
    | removed => exact ⟨rfl, rfl, rfl⟩
  · exact ⟨rfl, rfl, rfl⟩

/-- A packet reaches the server only on an open connection that the peer has not closed. -/
theorem step_data {before : List Event} {c : Connection} (tracks : Tracks before c)
    (fine : c.faulted = false) (segment : Segment) :
    Listening before ∧ step c (.data segment) = serverRecvData c (some segment) ∨
      ¬ Listening before ∧ (step c (.data segment)).calls = c.calls ∧
        (step c (.data segment)).device = c.device ∧ (step c (.data segment)).faulted = c.faulted := by
  by_cases opened : Open before
  · obtain ⟨gotFin, marked, there, -⟩ := tracks.running fine opened
    cases gotFin with
    | true =>
      refine .inr ⟨fun listening => listening.2 (marked.mp rfl), ?_⟩
      simp [step, fine, there, deliver, openPcb]
    | false =>
      exact .inl ⟨⟨opened, fun finished => Bool.false_ne_true (marked.mpr finished)⟩,
        by simp [step, fine, there, deliver, openPcb]⟩
  · refine .inr ⟨fun listening => opened listening.1, ?_⟩
    obtain ⟨closed, -⟩ := tracks.ended fine opened
    cases there : c.pcb with
    | none => simp [step, fine, there]
    | some pcb =>
      simp only [step, fine, there, deliver, (closed pcb there).1, if_true]
      split <;> simp [fine]

/-- What the server does with the packets still to come. -/
theorem calls_after {before : List Event} {c : Connection} (tracks : Tracks before c)
    (fine : c.faulted = false) (events : List Event) :
    (Traces.run step c events).calls = c.calls ++ serve c.device (heardAfter before events) := by
  induction events generalizing before c with
  | nil => simp [heardAfter, serve]
  | cons e rest ih =>
    have next := step_tracks tracks e
    rw [Traces.run_cons]
    by_cases packet : ∃ segment, e = .data segment
    · obtain ⟨segment, rfl⟩ := packet
      rcases step_data tracks fine segment with ⟨opened, served⟩ | ⟨ended, calls, device, fault⟩
      · rw [heardAfter, if_pos opened, serve]
        rw [served] at next ⊢
        cases result : serverRecv c.device segment.first with
        | none =>
          have faulted : serverRecvData c (some segment) =
              { c with calls := c.calls ++ [none], faulted := true } := by
            simp [serverRecvData, result]
          rw [faulted, run_faulted rfl]
        | some answer =>
          have answered : serverRecvData c (some segment) =
              { c with device := answer.1, calls := c.calls ++ [some answer.2] } := by
            simp [serverRecvData, result]
          rw [answered] at next ⊢
          rw [ih next fine]
          simp
      · rw [heardAfter, if_neg ended, ih next (fault.trans fine), calls, device]
    · have other : ∀ segment, e ≠ .data segment := fun segment same => packet ⟨segment, same⟩
      obtain ⟨calls, device, fault⟩ := step_other c other
      have skipped : heardAfter before (e :: rest) = heardAfter (before ++ [e]) rest := by
        cases e with
        | data segment => exact absurd rfl (other segment)
        | _ => rfl
      rw [skipped, ih next (fault.trans fine), calls, device]

end Lifetime

section Retries

/-! How often the server tries to close the connection. -/

def Close.succeeds : Close → Bool
  | .failed => false
  | .closing | .freed => true

/-- The silent ticks since the last acknowledgement or the last poll, and for each poll
so far whether `tcp_close` would succeed then. -/
def pollAfter (s : Nat × List Bool) : Event → Nat × List Bool
  | .acked => (0, s.2)
  | .tick close => if 4 ≤ s.1 + 1 then (0, s.2 ++ [close.succeeds]) else (s.1 + 1, s.2)
  | _ => s

def polls (events : List Event) : Nat × List Bool := events.foldl pollAfter (0, [])

/-- One try after the other until one succeeds. -/
def untilSuccess : List Bool → List Bool
  | [] => []
  | success :: rest => if success then [true] else false :: untilSuccess rest

theorem polls_snoc (events : List Event) (e : Event) : polls (events ++ [e]) = pollAfter (polls events) e := by
  simp [polls]

theorem mem_untilSuccess (tries : List Bool) : true ∈ untilSuccess tries ↔ true ∈ tries := by
  induction tries with
  | nil => rfl
  | cons success rest ih => cases success <;> simp [untilSuccess, ih]

theorem untilSuccess_snoc (tries : List Bool) (success : Bool) : untilSuccess (tries ++ [success]) =
    if true ∈ tries then untilSuccess tries else untilSuccess tries ++ [success] := by
  induction tries with
  | nil => cases success <;> rfl
  | cons first rest ih =>
    cases first with
    | true => simp [untilSuccess]
    | false =>
      simp only [List.cons_append, untilSuccess, ih, Bool.false_eq_true, if_false]
      simp only [List.mem_cons, Bool.true_eq_false, false_or]
      split <;> rfl

/-- As long as the connection is there, the server has tried at each poll until it
succeeded, and it is polled until then. -/
def Retries (before : List Event) (c : Connection) : Prop :=
  c.faulted = false → ∀ pcb, c.pcb = some pcb → c.closes = untilSuccess (polls before).2 ∧
    (pcb.poll = true ↔ true ∉ c.closes) ∧
    (pcb.poll = true → pcb.pollinterval = 4 ∧ pcb.polltmr = (polls before).1)

theorem serverPoll_retries {before : List Event} {c : Connection} {pcb : Pcb} {close : Close}
    (closes : c.closes = untilSuccess (polls before).2) (unclosed : true ∉ c.closes) (silent : 4 ≤ (polls before).1 + 1) :
    Retries (before ++ [.tick close]) (serverPoll c { pcb with polltmr := 0 } close) := by
  have next : polls (before ++ [.tick close]) = (0, (polls before).2 ++ [close.succeeds]) := by
    rw [polls_snoc, pollAfter, if_pos silent]
  have tried : untilSuccess (polls (before ++ [.tick close])).2 = c.closes ++ [close.succeeds] := by
    rw [closes, mem_untilSuccess] at unclosed
    rw [next, untilSuccess_snoc, if_neg unclosed, closes]
  intro _ pcb' there
  rw [tried]
  cases close with
  | failed =>
    cases there
    exact ⟨rfl, by simpa [serverPoll, tcpPoll] using unclosed, fun _ => ⟨rfl, by rw [next]; rfl⟩⟩
  | closing =>
    cases there
    exact ⟨rfl, by simp [serverPoll, tcpPoll], fun polled => by simp [tcpPoll] at polled⟩
  | freed => cases there

/-- A tick while the server still waits for a poll. -/
theorem tick_waiting {before : List Event} {c : Connection} {pcb : Pcb} {close : Close}
    (closes : c.closes = untilSuccess (polls before).2) (polled : pcb.poll = true ↔ true ∉ c.closes)
    (on : pcb.poll = true) (interval : pcb.pollinterval = 4) (count : pcb.polltmr = (polls before).1) :
    Retries (before ++ [.tick close]) (deliver c pcb (.tick close)) := by
  by_cases silent : 4 ≤ (polls before).1 + 1
  · have delivered : deliver c pcb (.tick close) = serverPoll c { pcb with polltmr := 0 } close := by
      simp [deliver, on, interval, count, silent]
    rw [delivered]
    exact serverPoll_retries closes (polled.mp on) silent
  · have delivered : deliver c pcb (.tick close) =
        { c with pcb := some { pcb with polltmr := pcb.polltmr + 1 } } := by
      simp [deliver, interval, count, silent]
    have next : polls (before ++ [.tick close]) = ((polls before).1 + 1, (polls before).2) := by
      rw [polls_snoc, pollAfter, if_neg silent]
    rw [delivered]
    rintro - p ⟨⟩
    rw [next]
    exact ⟨closes, polled, fun _ => ⟨interval, by simp [count]⟩⟩

/-- A tick after the server has closed the connection: what is polled then is not heard. -/
theorem tick_closed {before : List Event} {c : Connection} {pcb : Pcb} {close : Close}
    (closes : c.closes = untilSuccess (polls before).2) (polled : pcb.poll = true ↔ true ∉ c.closes)
    (off : pcb.poll = false) : Retries (before ++ [.tick close]) (deliver c pcb (.tick close)) := by
  have ended : true ∈ c.closes := by
    by_contra unclosed
    simp [polled.mpr unclosed] at off
  have enough : true ∈ (polls before).2 := by
    rw [← mem_untilSuccess, ← closes]
    exact ended
  have next : untilSuccess (polls (before ++ [.tick close])).2 = untilSuccess (polls before).2 := by
    rw [polls_snoc, pollAfter]
    split
    · rw [untilSuccess_snoc, if_pos enough]
    · rfl
  have delivered : ∃ t, deliver c pcb (.tick close) = { c with pcb := some { pcb with polltmr := t } } := by
    simp only [deliver, off, Bool.false_eq_true, if_false]
    split_ifs <;> exact ⟨_, rfl⟩
  obtain ⟨t, delivered⟩ := delivered
  rw [delivered]
  rintro - p ⟨⟩
  rw [next]
  exact ⟨closes, polled, fun polled => by simp [off] at polled⟩

theorem step_retries {before : List Event} {c : Connection} (retries : Retries before c) (e : Event) :
    Retries (before ++ [e]) (step c e) := by
  simp only [step]
  split
  · next fine there =>
    obtain ⟨closes, polled, timer⟩ := retries fine _ there
    rename_i pcb
    have stays (c' : Connection) (quiet : polls (before ++ [e]) = polls before) (tried : c'.closes = c.closes)
        (kept : ∀ p, c'.pcb = some p →
          p.poll = pcb.poll ∧ p.pollinterval = pcb.pollinterval ∧ p.polltmr = pcb.polltmr) :
        Retries (before ++ [e]) c' := by
      intro _ p found
      obtain ⟨poll, interval, timer'⟩ := kept p found
      rw [quiet, tried, poll, interval, timer']
      exact ⟨closes, polled, timer⟩
    cases e with
    | data segment =>
      have quiet : polls (before ++ [.data segment]) = polls before := by rw [polls_snoc]; rfl
      have same := serverRecvData_keeps c (some segment)
      simp only [deliver]
      split_ifs
      · exact stays c quiet rfl (by simp [there])
      · exact stays _ quiet rfl (by simp)
      · exact stays _ quiet same.2 (by simp [same.1, there])
      · exact stays c quiet rfl (by simp [there])
    | fin =>
      have quiet : polls (before ++ [.fin]) = polls before := by rw [polls_snoc]; rfl
      simp only [deliver, serverRecvData, ite_self]
      split_ifs
      · exact stays c quiet rfl (by simp [there])
      · exact stays _ quiet rfl (by simp)
    | acked =>
      rintro - p ⟨⟩
      have next : polls (before ++ [.acked]) = (0, (polls before).2) := by rw [polls_snoc]; rfl
      rw [next]
      exact ⟨closes, polled, fun on => ⟨(timer on).1, rfl⟩⟩
    | tick close =>
      cases on : pcb.poll with
      | true => exact tick_waiting closes polled on (timer on).1 (timer on).2
      | false => exact tick_closed closes polled on
    | removed =>
      rintro - p ⟨⟩
  · next gone =>
    intro fine pcb there
    exact absurd there (gone pcb fine)

theorem run_retries (d : Device) (events : List Event) : Retries events (run d events) := by
  induction events using List.reverseRecOn with
  | nil =>
    rintro - p ⟨⟩
    exact ⟨rfl, by simp [run, Traces.run, serverAccept, tcpPoll], fun _ => ⟨rfl, rfl⟩⟩
  | append_singleton events e ih =>
    rw [run, Traces.run_append]
    exact step_retries ih e

end Retries

/-- However packets, acknowledgements, ticks, the peer's close and failures of
`tcp_close` come, the server executes just the packets that came before the peer closed
its side and before the connection had once been silent for four ticks. It closes the
connection then and not before; while the connection is there it tries again after every
four more silent ticks until it succeeds, and no more after that. -/
theorem served_until_silent (d : Device) (events : List Event) :
    (run d events).calls = serve d (heard events) ∧ ClosedOnce (run d events) ∧
      ((run d events).closes ≠ [] → Lapsed events) ∧
      ((run d events).faulted = false → Lapsed events → Event.removed ∉ events →
        (run d events).closes ≠ []) ∧
      ((run d events).faulted = false → (run d events).pcb ≠ none →
        (run d events).closes = untilSuccess (polls events).2) := by
  have tracks := run_tracks d events
  refine ⟨?_, tracks.once, tracks.late, tracks.due, fun fine there => ?_⟩
  · have started := run_tracks d []
    simpa [run, serverAccept, heard] using calls_after started rfl events
  · obtain ⟨pcb, found⟩ := Option.ne_none_iff_exists'.mp there
    exact (run_retries d events fine pcb found).1

end AsdPre.CommandConnection
