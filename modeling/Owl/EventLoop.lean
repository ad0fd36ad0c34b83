import Owl.ClockMaster
import Owl.DaemonTrace
import Owl.Airtime

/-!
The timetable of the daemon, an abstraction of the event loop that `awdl_schedule`
starts. Each timer of `core.c` runs once and is armed again by its handler; the
timers for the cleanup and for PSFs repeat. The loop may be late: time passes at
will, and a timer that is due goes off some time later. Times are microseconds.

A frame that waits for the air never waits without a timer that goes off for it
within one extended window.
-/

namespace Owl.EventLoop

open Bytes Ether Channel Sync SyncTransfer SyncClock Peers PeersRefine Wire State Frames Tx Rx RxSpec
  CircularBuffer Schedule Daemon Transmit TransmitQueues DaemonRun ClockMaster Airtime DaemonTrace Siphash

abbrev Deadlines := Timer → Option Nat

structure Loop where
  now : Nat
  state : DaemonState
  deadline : Deadlines
  peerDeadline : Nat
  psfDeadline : Nat

/-- The timer starts anew, also where it was running; a time that has passed is now. -/
def rearm (now : Nat) (deadline : Deadlines) (timer : Timer) (delay : Int) : Deadlines :=
  Function.update deadline timer (some (now + delay.toNat))

def applyEvent (now : Nat) (deadline : Deadlines) : TxEvent → Deadlines
  | .timerRearm timer delay => rearm now deadline timer delay
  | _ => deadline

def applyEvents (now : Nat) (events : List TxEvent) (deadline : Deadlines) : Deadlines :=
  events.foldl (applyEvent now) deadline

/-- The timers that are armed again go off at once, those that repeat after their interval. -/
def scheduled (now : Nat) (state : DaemonState) : Loop where
  now := now
  state := state
  deadline := fun _ => some now
  peerDeadline := now + state.awdlState.peers.cleanInterval.toNat
  psfDeadline := now + 1024 * state.awdlState.psfInterval.toNat

def timerOf : Turn → Option Timer
  | .sendMif _ _ => some .mif
  | .sendUnicast _ _ => some .tx
  | .sendMulticast _ _ => some .txMcast
  | .switchChannel _ _ _ => some .chan
  | _ => none

def Device : Turn → Prop
  | .receiveFrame _ _ => True
  | .hostDeviceReady _ _ _ _ => True
  | _ => False

inductive Happening where
  | wait (later : Nat)
  | timer (timer : Timer) (turn : Turn)
  | peerTimer (clock : UInt64)
  | psfTimer (env : TxEnv)
  | device (turn : Turn)

inductive Step (hash : EtherAddr → UInt64) (loop : Loop) : Happening → List Report → Loop → Prop where
  | wait (later : Nat) (forward : loop.now ≤ later) :
      Step hash loop (.wait later) [] { loop with now := later }
  | timer {after : DaemonState} {report : Report} (timer : Timer) (due : Nat) (turn : Turn)
      (armed : loop.deadline timer = some due) (reached : due ≤ loop.now)
      (handler : timerOf turn = some timer)
      (performed : perform hash loop.state turn = .ok (after, report)) :
      -- A timer without an interval is stopped before its handler is called.
      Step hash loop (.timer timer turn) [report]
        { loop with
          state := after
          deadline := applyEvents loop.now report.events (Function.update loop.deadline timer none) }
  | peerTimer {after : DaemonState} {report : Report} (clock : UInt64)
      (reached : loop.peerDeadline ≤ loop.now)
      (performed : perform hash loop.state (.cleanPeers clock) = .ok (after, report)) :
      Step hash loop (.peerTimer clock) [report]
        { loop with
          state := after
          peerDeadline := loop.now + loop.state.awdlState.peers.cleanInterval.toNat }
  | psfTimer {after : DaemonState} {report : Report} (env : TxEnv) (next : Nat)
      (reached : loop.psfDeadline ≤ loop.now) (later : loop.psfDeadline ≤ next)
      -- The timer keeps to its interval, and only a timer that is late may go off sooner.
      (near : next ≤ loop.now + 1024 * loop.state.awdlState.psfInterval.toNat)
      (performed : perform hash loop.state (.sendPsf env) = .ok (after, report)) :
      Step hash loop (.psfTimer env) [report] { loop with state := after, psfDeadline := next }
  | device {after : DaemonState} {report : Report} (turn : Turn) (device : Device turn)
      (inside : turn.Inside) (performed : perform hash loop.state turn = .ok (after, report)) :
      Step hash loop (.device turn) [report]
        { loop with state := after, deadline := applyEvents loop.now report.events loop.deadline }

inductive Runs (hash : EtherAddr → UInt64) (guard : Loop → Happening → Loop → Prop) (start : Loop) :
    List Report → Loop → Prop where
  | start : Runs hash guard start [] start
  | step {reports more : List Report} {loop after : Loop} {happening : Happening}
      (run : Runs hash guard start reports loop) (step : Step hash loop happening more after)
      (allowed : guard loop happening after) : Runs hash guard start (reports ++ more) after

theorem timerOf_inside {timer : Timer} {turn : Turn} (handler : timerOf turn = some timer) :
    turn.Inside := by
  cases turn with
  | receiveFrame env frame => cases handler
  | _ => trivial

def turnOf : Happening → Option Turn
  | .wait _ => none
  | .timer _ turn => some turn
  | .peerTimer clock => some (.cleanPeers clock)
  | .psfTimer env => some (.sendPsf env)
  | .device turn => some turn

/-- A step of the loop lets time pass or is a call. -/
theorem Step.called {hash : EtherAddr → UInt64} {loop next : Loop} {happening : Happening}
    {reports : List Report} (step : Step hash loop happening reports next) :
    (reports = [] ∧ next = { loop with now := next.now } ∧ loop.now ≤ next.now) ∨
      ∃ turn report, turnOf happening = some turn ∧ turn.Inside ∧
        perform hash loop.state turn = .ok (next.state, report) ∧ reports = [report] ∧
        next.now = loop.now := by
  cases step with
  | wait later forward => exact .inl ⟨rfl, rfl, forward⟩
  | timer timer due turn armed reached handler performed =>
      exact .inr ⟨turn, _, rfl, timerOf_inside handler, performed, rfl, rfl⟩
  | peerTimer clock reached performed => exact .inr ⟨_, _, rfl, trivial, performed, rfl, rfl⟩
  | psfTimer env due reached passed near performed => exact .inr ⟨_, _, rfl, trivial, performed, rfl, rfl⟩
  | device turn device inside performed =>
      exact .inr ⟨turn, _, rfl, inside, performed, rfl, rfl⟩

/-- A run of the loop is a run of the daemon. -/
theorem Step.performed {hash : EtherAddr → UInt64} {start : DaemonState} {loop next : Loop}
    {happening : Happening} {reports more : List Report} (step : Step hash loop happening more next)
    (run : Performed hash start reports loop.state) :
    Performed hash start (reports ++ more) next.state := by
  obtain ⟨rfl, same, -⟩ | ⟨turn, report, -, inside, performed, rfl, -⟩ := step.called
  · rw [same, List.append_nil]
    exact run
  · exact run.step turn inside performed

theorem Runs.performed {hash : EtherAddr → UInt64} {guard : Loop → Happening → Loop → Prop}
    {start loop : Loop} {reports : List Report} (run : Runs hash guard start reports loop) :
    Performed hash start.state reports loop.state := by
  induction run with
  | start => exact .start
  | step run step allowed ih => exact step.performed ih

section Attended

def Wants (state : DaemonState) : Timer → Prop
  | .mif => True
  | .tx => state.next.isSome
  | .txMcast => circularBufEmpty state.txQueueMulticast = false
  | .chan => True

/-- The middle of the next extended window is up to one and a half of them away. -/
def reach : Timer → Nat
  | .mif => 98304
  | _ => 65536

def Soon (bound : Timer → Nat) (now : Nat) (deadline : Deadlines) (timer : Timer) : Prop :=
  ∃ due, deadline timer = some due ∧ due ≤ now + bound timer

def Attended (bound : Timer → Nat) (now : Nat) (state : DaemonState) (deadline : Deadlines) : Prop :=
  ∀ timer, Wants state timer → Soon bound now deadline timer

theorem applyEvents_append (now : Nat) (early late : List TxEvent) (deadline : Deadlines) :
    applyEvents now (early ++ late) deadline =
      applyEvents now late (applyEvents now early deadline) :=
  List.foldl_append

def Spares (timer : Timer) : TxEvent → Prop
  | .timerRearm other _ => timer ≠ other
  | _ => True

theorem applyEvents_spares {timer : Timer} {events : List TxEvent}
    (spares : ∀ event ∈ events, Spares timer event) (now : Nat) (deadline : Deadlines) :
    applyEvents now events deadline timer = deadline timer := by
  induction events generalizing deadline with
  | nil => rfl
  | cons event rest ih =>
      have later := ih (fun other member => spares other (List.mem_cons_of_mem _ member))
        (applyEvent now deadline event)
      have here := spares event List.mem_cons_self
      rw [show applyEvents now (event :: rest) deadline =
        applyEvents now rest (applyEvent now deadline event) from rfl, later]
      cases event <;> first | rfl | exact Function.update_of_ne here _ _

/-- The last event arms the timer. -/
theorem applyEvents_rearm (now : Nat) (early : List TxEvent) (timer : Timer) (delay : Int)
    (deadline : Deadlines) :
    applyEvents now (early ++ [.timerRearm timer delay]) deadline timer =
      some (now + delay.toNat) := by
  rw [applyEvents_append]
  exact Function.update_self timer _ _

variable {bound : Timer → Nat}

theorem soon_rearm {now : Nat} {timer : Timer} {delay : Int} (near : delay ≤ bound timer)
    (early : List TxEvent) (deadline : Deadlines) :
    Soon bound now (applyEvents now (early ++ [.timerRearm timer delay]) deadline) timer :=
  ⟨now + delay.toNat, applyEvents_rearm now early timer delay deadline, by omega⟩

def Serves (bound : Timer → Nat) (timer : Timer) (done : DaemonState × List TxEvent) : Prop :=
  ∀ now deadline, Wants done.1 timer → Soon bound now (applyEvents now done.2 deadline) timer

def Tends (bound : Timer → Nat) (timer : Timer) (before : DaemonState)
    (done : DaemonState × List TxEvent) : Prop :=
  ∀ now deadline, (Wants before timer → Soon bound now deadline timer) → Wants done.1 timer →
    Soon bound now (applyEvents now done.2 deadline) timer

theorem Serves.tends {timer : Timer} {done : DaemonState × List TxEvent}
    (serves : Serves bound timer done) (before : DaemonState) : Tends bound timer before done :=
  fun now deadline _ => serves now deadline

theorem tends_spares {timer : Timer} {before : DaemonState} {done : DaemonState × List TxEvent}
    (kept : Wants done.1 timer → Wants before timer)
    (spares : ∀ event ∈ done.2, Spares timer event) : Tends bound timer before done := by
  intro now deadline soon wants
  obtain ⟨due, armed, near⟩ := soon (kept wants)
  exact ⟨due, (applyEvents_spares spares now deadline).trans armed, near⟩

theorem Tends.trans {timer : Timer} {first second third : DaemonState} {early late : List TxEvent}
    (left : Tends bound timer first (second, early)) (right : Tends bound timer second (third, late)) :
    Tends bound timer first (third, early ++ late) := by
  intro now deadline soon wants
  rw [applyEvents_append]
  exact right now _ (left now deadline soon) wants

theorem Serves.after {timer : Timer} {after : DaemonState} {late : List TxEvent}
    (serves : Serves bound timer (after, late)) (early : List TxEvent) :
    Serves bound timer (after, early ++ late) := by
  intro now deadline wants
  rw [applyEvents_append]
  exact serves now _ wants

end Attended

section Delays

variable (long : LongWidth) (now : UInt64) (state : AwdlState)

theorem nextAwUs_near {sync : SyncState} (regular : Regular sync) :
    usecToSec (awdlSyncNextAwUs long now sync) ≤ 65536 := by
  rw [usecToSec, nextAwUs_phase long now regular]
  omega

theorem canSendUnicastIn_near (regular : Regular state.sync) (peer : Peer) :
    -3072 ≤ awdlCanSendUnicastIn long state peer now awdlUnicastGuardTu ∧
      awdlCanSendUnicastIn long state peer now awdlUnicastGuardTu ≤ 65536 := by
  have left := nextAwUs_phase long now regular
  have inside := phase_lt now state.sync
  have room : (guardUsec long awdlUnicastGuardTu).toNat = 3072 := guardUsec_toNat long 3 (by decide)
  have whole : (ieee80211TuToUsec long 64).toNat = 65536 := tuToUsec_toNat long 64 (by decide)
  unfold awdlCanSendUnicastIn usecToSec
  simp only [UInt64.lt_iff_toNat_lt, UInt64.toNat_sub, left, room, whole]
  split
  · omega
  split
  · split
    · omega
    · omega
  split
  · split
    · omega
    · omega
  · omega

/-- Whatever the peer does, its frame is tried again within an extended window. -/
theorem unicastRetry_near (regular : Regular state.sync) (peer : Peer) :
    afterGuard long awdlUnicastGuardTu
      (awdlCanSendUnicastIn long state peer now awdlUnicastGuardTu) ≤ 65536 := by
  have near := canSendUnicastIn_near long now state regular peer
  have room : (guardUsec long awdlUnicastGuardTu).toNat = 3072 := guardUsec_toNat long 3 (by decide)
  rw [afterGuard, usecToSec, room]
  split
  · omega
  · exact near.2

theorem multicastRetry_near (regular : Regular state.sync) :
    multicastRetry long (awdlCanSendIn long state now awdlMulticastGuardTu) ≤ 65536 := by
  have retry : afterGuard long awdlMulticastGuardTu
      (awdlCanSendIn long state now awdlMulticastGuardTu) = _ :=
    afterGuard_phase long state now 16 regular (by decide)
  have whole : (ieee80211TuToUsec long 64).toNat = 65536 := tuToUsec_toNat long 64 (by decide)
  have inside := phase_lt now state.sync
  unfold multicastRetry
  split
  · rw [usecToSec, whole]
    rfl
  rw [retry]
  split
  · omega
  unfold guardDelay
  split
  · omega
  · split
    · omega
    · omega

end Delays

theorem ensures_and {α : Type} {run : Except Fault α} {left right : α → Prop}
    (first : Ensures run left) (second : Ensures run right) :
    Ensures run fun value => left value ∧ right value :=
  fun value ends => ⟨first value ends, second value ends⟩

section Handlers

variable (hash : EtherAddr → UInt64) (long : LongWidth) (now : UInt64) (state : DaemonState)
  {bound : Timer → Nat}

/-- The slot is emptied or left as it is, and no timer is touched. -/
theorem sendNext_calm (regular : Regular state.awdlState.sync) (frame : Buf) :
    Ensures (sendNext hash long now frame state) fun sent =>
      sent.1 ≤ 65536 ∧ sent.2.1.txQueueMulticast = state.txQueueMulticast ∧
        ∀ timer, ∀ event ∈ sent.2.2, Spares timer event := by
  have single : ∀ {event : TxEvent}, (∀ timer, Spares timer event) →
      ∀ timer, ∀ other ∈ [event], Spares timer other := by
    intro event spares timer other member
    rw [List.mem_singleton.mp member]
    exact spares timer
  have atOnce : (0 : Int) ≤ 65536 := by decide
  unfold sendNext
  refine .andThen fun dst => ?_
  cases dst with
  | none => exact .error .read
  | some dst =>
  dsimp only
  split
  · exact .ok ⟨atOnce, rfl, single fun _ => trivial⟩
  split
  case h_1 peer found =>
    split
    · exact .andThen fun sent => .ok ⟨atOnce, rfl, single fun _ => trivial⟩
    · exact .ok ⟨unicastRetry_near long now state.awdlState regular peer, rfl, fun _ _ member =>
        absurd member List.not_mem_nil⟩
  · exact .ok ⟨atOnce, rfl, single fun _ => trivial⟩

def RetriesWithin (bound : Nat) (state : AwdlState) : Prop :=
  (awdlIsMulticastEaw long state now = true ∧
      awdlCanSendIn long state now awdlMulticastGuardTu = 0) ∨
    multicastRetry long (awdlCanSendIn long state now awdlMulticastGuardTu) ≤ bound

theorem sendOldest_calm (near : RetriesWithin long now (bound .txMcast) state.awdlState) :
    Ensures (sendOldest long now state) fun sent =>
      sent.1 ≤ bound .txMcast ∧ sent.2.1.next = state.next ∧
        ∀ timer, ∀ event ∈ sent.2.2, Spares timer event := by
  unfold sendOldest
  dsimp only
  split
  · split
    · refine .andThen fun sent => .ok ⟨Int.natCast_nonneg _, rfl, ?_⟩
      intro timer event member
      rw [List.mem_singleton.mp member]
      trivial
    · exact .error .read
  case isFalse waits =>
    refine .ok ⟨near.resolve_left fun sends => waits ?_, rfl, fun _ _ member =>
      absurd member List.not_mem_nil⟩
    rw [sends.1, sends.2]
    rfl

structure Serving (bound : Timer → Nat) (timer : Timer) (before : DaemonState)
    (done : DaemonState × List TxEvent) : Prop where
  serves : Serves bound timer done
  tends : ∀ other, Tends bound other before done
  spares : ∀ other, other ≠ timer → ∀ event ∈ done.2, Spares other event

/-- What a handler does that ends by arming its timer, where the daemon counts on it. -/
theorem serving_closes {timer : Timer} {before after : DaemonState} {early : List TxEvent}
    {last : TxEvent} {delay : Int} (near : delay ≤ bound timer)
    (arms : Wants after timer → last = .timerRearm timer delay)
    (closes : ∀ other, other ≠ timer → Spares other last)
    (kept : ∀ other, other ≠ timer → Wants after other → Wants before other)
    (spares : ∀ other, ∀ event ∈ early, Spares other event) :
    Serving bound timer before (after, early ++ [last]) := by
  have serves : Serves bound timer (after, early ++ [last]) := by
    intro now deadline wants
    rw [arms wants]
    exact soon_rearm near early deadline
  have others : ∀ other, other ≠ timer → ∀ event ∈ early ++ [last], Spares other event := by
    intro other different event member
    obtain inner | outer := List.mem_append.mp member
    · exact spares other event inner
    · rw [List.mem_singleton.mp outer]
      exact closes other different
  refine ⟨serves, fun other => ?_, others⟩
  by_cases same : other = timer
  · rw [same]
    exact serves.tends before
  · exact tends_spares (kept other same) (others other same)

theorem awdlSendUnicast_serving (regular : Regular state.awdlState.sync)
    (room : 65536 ≤ bound .tx) :
    Ensures (awdlSendUnicast hash long now state) (Serving bound .tx state) := by
  -- Only the slot may change, and the queue decides about the other timer.
  have closes : ∀ {delay : Int} {after : DaemonState} {events : List TxEvent}, delay ≤ 65536 →
      after.txQueueMulticast = state.txQueueMulticast →
      (∀ timer, ∀ event ∈ events, Spares timer event) →
      Serving bound .tx state (after, events ++
        [if after.next.isSome then .timerRearm .tx delay else .feedReadHost]) := by
    intro delay after events near queue spares
    refine serving_closes (near.trans (Int.ofNat_le.mpr room)) (fun wants => if_pos wants) ?_ ?_ spares
    · intro other different
      split
      · exact different
      · trivial
    · intro other different wants
      cases other with
      | tx => exact absurd rfl different
      | txMcast => exact (congrArg circularBufEmpty queue).symm.trans wants
      | mif => trivial
      | chan => trivial
  unfold awdlSendUnicast
  cases state.next with
  | none => exact .ok (closes (by decide) rfl fun _ _ member => absurd member List.not_mem_nil)
  | some frame =>
      refine .bind (sendNext_calm hash long now state regular frame) fun sent calm => .ok ?_
      exact closes calm.1 calm.2.1 calm.2.2

theorem awdlSendMulticast_serving (near : RetriesWithin long now (bound .txMcast) state.awdlState) :
    Ensures (awdlSendMulticast long now state) (Serving bound .txMcast state) := by
  have closes : ∀ {delay : Int} {after : DaemonState} {events : List TxEvent},
      delay ≤ bound .txMcast →
      after.next = state.next → (∀ timer, ∀ event ∈ events, Spares timer event) →
      Serving bound .txMcast state (after, events ++
        [if circularBufEmpty after.txQueueMulticast then .feedReadHost
          else .timerRearm .txMcast delay]) := by
    intro delay after events near next spares
    refine serving_closes near (fun wants => if_neg (Bool.eq_false_iff.mp wants)) ?_ ?_ spares
    · intro other different
      split
      · trivial
      · exact different
    · intro other different wants
      cases other with
      | tx => exact (congrArg Option.isSome next).symm.trans wants
      | txMcast => exact absurd rfl different
      | mif => trivial
      | chan => trivial
  unfold awdlSendMulticast
  split
  · exact .ok (closes (Int.natCast_nonneg _) rfl fun _ _ member => absurd member List.not_mem_nil)
  · refine .bind (sendOldest_calm long now state near) fun sent calm => .ok ?_
    exact closes calm.1 calm.2.1 calm.2.2

structure Polled (before : DaemonState) (polled : UInt8 × DaemonState × List TxEvent) : Prop where
  unicast : polled.1 &&& pollNewUnicast = 0 → polled.2.1.next = before.next
  multicast : polled.1 &&& pollNewMulticast = 0 →
    polled.2.1.txQueueMulticast = before.txQueueMulticast
  spares : ∀ timer, ∀ event ∈ polled.2.2, Spares timer event

theorem or_and_eq_zero {bit result mask : UInt8} (none : (bit ||| result) &&& mask = 0) :
    bit &&& mask = 0 ∧ result &&& mask = 0 := by
  have split : (bit ||| result) &&& mask = (bit &&& mask) ||| (result &&& mask) :=
    UInt8.toBitVec_inj.mp BitVec.and_or_distrib_right
  rw [split] at none
  exact UInt8.or_eq_zero_iff.mp none

theorem pollHostDevice_polled (reads : List HostRead) :
    Ensures (pollHostDevice reads state) (Polled state) := by
  have idle : ∀ before : DaemonState, Polled before (0, before, []) := fun before =>
    ⟨fun _ => rfl, fun _ => rfl, fun _ _ member => absurd member List.not_mem_nil⟩
  induction reads generalizing state with
  | nil => exact .ok (idle state)
  | cons read rest ih =>
      rw [pollHostDevice]
      split
      · exact .ok (idle state)
      refine .andThen fun buf => .andThen fun dst => ?_
      cases dst with
      | none =>
          refine .ok ⟨fun _ => rfl, fun _ => rfl, ?_⟩
          intro timer event member
          rw [List.mem_singleton.mp member]
          trivial
      | some dst =>
          dsimp only
          split
          · refine .bind (ih _) fun polled later => .ok ⟨?_, ?_, ?_⟩
            · exact fun none => later.unicast (or_and_eq_zero none).2
            · exact fun none => absurd (or_and_eq_zero none).1 (by decide)
            · intro timer event member
              obtain rfl | rfl | member := by simpa using member
              · trivial
              · trivial
              · exact later.spares timer event member
          · refine .bind (ih _) fun polled later => .ok ⟨?_, ?_, ?_⟩
            · exact fun none => absurd (or_and_eq_zero none).1 (by decide)
            · exact fun none => later.multicast (or_and_eq_zero none).2
            · intro timer event member
              obtain rfl | member := by simpa using member
              · trivial
              · exact later.spares timer event member

theorem Polled.tends {before : DaemonState} {polled : UInt8 × DaemonState × List TxEvent}
    (calm : Polled before polled) (timer : Timer)
    (unicast : timer = .tx → polled.1 &&& pollNewUnicast = 0)
    (multicast : timer = .txMcast → polled.1 &&& pollNewMulticast = 0) :
    Tends bound timer before polled.2 := by
  refine tends_spares ?_ (calm.spares timer)
  intro wants
  cases timer with
  | tx => exact (congrArg Option.isSome (calm.unicast (unicast rfl))).symm.trans wants
  | txMcast => exact (congrArg circularBufEmpty (calm.multicast (multicast rfl))).symm.trans wants
  | mif => trivial
  | chan => trivial

theorem callIf_serving {timer : Timer} {condition : Bool}
    {handler : DaemonState → Except Fault (DaemonState × List TxEvent)}
    (serving : Ensures (handler state) (Serving bound timer state)) :
    Ensures (callIf condition handler state) fun done =>
      (condition = true → Serves bound timer done) ∧ (∀ other, Tends bound other state done) ∧
        ∀ other, other ≠ timer → ∀ event ∈ done.2, Spares other event := by
  unfold callIf
  split
  case isTrue called =>
    intro done run
    obtain ⟨serves, tends, spares⟩ := serving done run
    exact ⟨fun _ => serves, tends, spares⟩
  case isFalse skipped =>
    have idle : ∀ other : Timer, ∀ event ∈ ([] : List TxEvent), Spares other event :=
      fun _ _ member => absurd member List.not_mem_nil
    exact .ok ⟨fun called => absurd called skipped, fun other => tends_spares id (idle other),
      fun other _ => idle other⟩

theorem hostDeviceReady_tends (regular : Regular state.awdlState.sync) (room : 65536 ≤ bound .tx)
    (near : RetriesWithin long now (bound .txMcast) state.awdlState) (reads : List HostRead)
    (unicastNow : UInt64) :
    Ensures (Transmit.hostDeviceReady hash long reads now unicastNow state) fun done =>
      (∀ timer, Tends bound timer state done) ∧
        ∀ timer, timer ≠ .tx → timer ≠ .txMcast → ∀ event ∈ done.2, Spares timer event := by
  unfold Transmit.hostDeviceReady
  refine .bind (ensures_and (pollHostDevice_transmits state reads)
    (pollHostDevice_polled state reads)) fun polled done => ?_
  obtain ⟨node, calm⟩ := done
  have regularPolled : Regular polled.2.1.awdlState.sync := node ▸ regular
  refine .bind (ensures_and
    (callIf_transmits polled.2.1 (awdlSendMulticast_transmits long now polled.2.1))
    (callIf_serving polled.2.1 (awdlSendMulticast_serving long now polled.2.1 (node ▸ near))))
    fun multicast done => ?_
  obtain ⟨⟨_, _, _, same⟩, first, firstTends, firstSpares⟩ := done
  have regularSent : Regular multicast.1.awdlState.sync := by
    rw [same]
    exact regularPolled
  refine .bind (callIf_serving multicast.1
    (awdlSendUnicast_serving hash long unicastNow multicast.1 regularSent room)) fun unicast last => .ok ?_
  obtain ⟨second, secondTends, secondSpares⟩ := last
  refine ⟨fun timer => ?_, ?_⟩
  swap
  · intro timer unicastOther multicastOther event member
    rw [List.mem_append, List.mem_append] at member
    obtain (member | member) | member := member
    · exact calm.spares timer event member
    · exact firstSpares timer multicastOther event member
    · exact secondSpares timer unicastOther event member
  -- A new frame has called the handler of its timer.
  by_cases queued : timer = .txMcast ∧ polled.1 &&& pollNewMulticast ≠ 0
  · obtain ⟨rfl, new⟩ := queued
    exact ((first (bne_iff_ne.mpr new)).after _ |>.tends state).trans (secondTends _)
  by_cases slotted : timer = .tx ∧ polled.1 &&& pollNewUnicast ≠ 0
  · obtain ⟨rfl, new⟩ := slotted
    exact (second (bne_iff_ne.mpr new)).after _ |>.tends state
  · have early : Tends bound timer state polled.2 :=
      calm.tends timer (fun same => not_not.mp fun new => slotted ⟨same, new⟩)
        (fun same => not_not.mp fun new => queued ⟨same, new⟩)
    exact (early.trans (firstTends timer)).trans (secondTends timer)

theorem awdlSendAction_tends (env : TxEnv) (type : ActionType) :
    Ensures (awdlSendAction env type state) fun done =>
      done.1.next = state.next ∧ done.1.txQueueMulticast = state.txQueueMulticast ∧
        ∀ timer, ∀ event ∈ done.2, Spares timer event := by
  refine .andThen fun built => .ok ⟨rfl, rfl, ?_⟩
  intro timer event member
  rw [List.mem_singleton.mp member]
  trivial

theorem wants_congr {before after : DaemonState} (next : after.next = before.next)
    (queue : after.txQueueMulticast = before.txQueueMulticast) (timer : Timer)
    (wants : Wants after timer) : Wants before timer := by
  cases timer with
  | tx => exact (congrArg Option.isSome next).symm.trans wants
  | txMcast => exact (congrArg circularBufEmpty queue).symm.trans wants
  | mif => trivial
  | chan => trivial

theorem awdlSendMif_serving (env : TxEnv) (regular : Regular state.awdlState.sync)
    (room : 98304 ≤ bound .mif) :
    Ensures (awdlSendMif env now state) (Serving bound .mif state) := by
  have half : (ieee80211TuToUsec env.long (state.awdlState.sync.eawPeriod / 2)).toNat = 32768 := by
    rw [eawPeriod_eq regular]
    exact tuToUsec_toNat env.long 32 (by decide)
  have left := nextAwUs_phase env.long now regular
  have near : usecToSec (awdlSyncNextAwUs env.long now state.awdlState.sync +
      ieee80211TuToUsec env.long (state.awdlState.sync.eawPeriod / 2)) ≤ bound .mif := by
    rw [usecToSec, UInt64.toNat_add, left, half]
    omega
  have closes : ∀ {after : DaemonState} {events : List TxEvent}, after.next = state.next →
      after.txQueueMulticast = state.txQueueMulticast →
      (∀ timer, ∀ event ∈ events, Spares timer event) →
      Serving bound .mif state (after, events ++ [.timerRearm .mif (usecToSec
        (awdlSyncNextAwUs env.long now state.awdlState.sync +
          ieee80211TuToUsec env.long (state.awdlState.sync.eawPeriod / 2)))]) :=
    fun next queue spares => serving_closes near (fun _ => rfl) (fun _ different => different)
      (fun other _ => wants_congr next queue other) spares
  unfold awdlSendMif callIf
  dsimp only
  split
  · exact .bind (awdlSendAction_tends state env .mif) fun sent calm =>
      .ok (closes calm.1 calm.2.1 calm.2.2)
  · exact .ok (closes rfl rfl fun _ _ member => absurd member List.not_mem_nil)

theorem awdlSwitchChannel_serving (wlanIsFile : Bool) (regular : Regular state.awdlState.sync)
    (room : 65536 ≤ bound .chan) :
    Serving bound .chan state (awdlSwitchChannel long wlanIsFile now state) := by
  have near := (nextAwUs_near long now regular).trans (Int.ofNat_le.mpr room)
  unfold awdlSwitchChannel
  dsimp only
  split
  · refine serving_closes near (fun _ => rfl) (fun _ different => different)
      (fun other _ => wants_congr rfl rfl other) ?_
    intro timer event member
    split at member
    · exact absurd member List.not_mem_nil
    · rw [List.mem_singleton.mp member]
      trivial
  · show Serving bound .chan state (state, [] ++ [_])
    exact serving_closes near (fun _ => rfl) (fun _ different => different)
      (fun other _ => wants_congr rfl rfl other) fun _ _ member => absurd member List.not_mem_nil

end Handlers

section Loop

variable {hash : EtherAddr → UInt64} {state after : DaemonState} {report : Report}
  {bound : Timer → Nat}

theorem transmitting_ensures {property : DaemonState × List TxEvent → Prop}
    {run : Except Fault (DaemonState × List TxEvent)} (ensures : Ensures run property)
    (same : transmitting run = .ok (after, report)) : property (after, report.events) := by
  cases run with
  | error fault => cases same
  | ok sent =>
      cases same
      exact ensures sent rfl

def asks : Turn → Option (LongWidth × UInt64)
  | .sendMulticast long now => some (long, now)
  | .hostDeviceReady long _ multicastNow _ => some (long, multicastNow)
  | _ => none

structure Covers (bound : Timer → Nat) (state : AwdlState) (turn : Turn) : Prop where
  regular : Regular state.sync
  mif : 98304 ≤ bound .mif
  tx : 65536 ≤ bound .tx
  chan : 65536 ≤ bound .chan
  txMcast : ∀ long now, asks turn = some (long, now) → RetriesWithin long now (bound .txMcast) state

theorem reach_covers {state : AwdlState} (regular : Regular state.sync) (turn : Turn) :
    Covers reach state turn :=
  ⟨regular, Nat.le_refl _, Nat.le_refl _, Nat.le_refl _,
    fun long now _ => .inr (multicastRetry_near long now state regular)⟩

theorem perform_serving {timer : Timer} {turn : Turn} (covers : Covers bound state.awdlState turn)
    (handler : timerOf turn = some timer) (performed : perform hash state turn = .ok (after, report)) :
    Serving bound timer state (after, report.events) := by
  cases turn with
  | sendUnicast long now =>
      cases handler
      exact transmitting_ensures
        (awdlSendUnicast_serving hash long now state covers.regular covers.tx) performed
  | sendMulticast long now =>
      cases handler
      exact transmitting_ensures
        (awdlSendMulticast_serving long now state (covers.txMcast long now rfl)) performed
  | sendMif env now =>
      cases handler
      exact transmitting_ensures (awdlSendMif_serving now state env covers.regular covers.mif) performed
  | switchChannel long wlanIsFile now =>
      cases handler
      exact transmitting_ensures (.ok (awdlSwitchChannel_serving long now state wlanIsFile
        covers.regular covers.chan)) performed
  | _ => cases handler

/-- The calls that leave the queues and the timers as they are. -/
theorem tends_same {timer : Timer} (next : after.next = state.next)
    (queue : after.txQueueMulticast = state.txQueueMulticast) : Tends bound timer state (after, []) :=
  tends_spares (wants_congr next queue timer) fun _ member => absurd member List.not_mem_nil

def Arms : Turn → Timer → Prop
  | .hostDeviceReady _ _ _ _, timer => timer = .tx ∨ timer = .txMcast
  | turn, timer => timerOf turn = some timer

theorem perform_device {turn : Turn} (covers : Covers bound state.awdlState turn)
    (device : Device turn) (performed : perform hash state turn = .ok (after, report)) :
    (∀ timer, Tends bound timer state (after, report.events)) ∧
      ∀ timer, ¬ Arms turn timer → ∀ event ∈ report.events, Spares timer event := by
  cases turn with
  | receiveFrame env frame =>
      obtain ⟨outcome, -, rfl, rfl⟩ := perform_received performed
      exact ⟨fun _ => tends_same rfl rfl, fun _ _ _ member => absurd member List.not_mem_nil⟩
  | hostDeviceReady long reads multicastNow unicastNow =>
      obtain ⟨tends, spares⟩ := transmitting_ensures
        (hostDeviceReady_tends hash long multicastNow state covers.regular covers.tx
          (covers.txMcast long multicastNow rfl) reads unicastNow) performed
      refine ⟨tends, fun timer other => spares timer ?_ ?_⟩
      · exact fun same => other (.inl same)
      · exact fun same => other (.inr same)
  | _ => exact absurd device id

theorem Soon.later {now later : Nat} {deadline : Deadlines} {timer : Timer}
    (soon : Soon bound now deadline timer) (forward : now ≤ later) :
    Soon bound later deadline timer := by
  obtain ⟨due, armed, near⟩ := soon
  exact ⟨due, armed, by omega⟩

structure Poised (hash : EtherAddr → UInt64) (own : EtherAddr) (fixed : Settings)
    (state : AwdlState) : Prop where
  apart : Apart hash own state
  aligned : Aligned state.sync
  settled : settings state = fixed

theorem perform_poised {own : EtherAddr} {fixed : Settings} (turn : Turn)
    (poised : Poised hash own fixed state.awdlState) (inside : turn.Inside)
    (performed : perform hash state turn = .ok (after, report)) :
    Poised hash own fixed after.awdlState := by
  have changes := perform_changes poised.apart inside performed
  exact ⟨changes.apart poised.apart, changes_aligned changes poised.aligned,
    (changes_settings changes).trans poised.settled⟩

theorem Step.poised {own : EtherAddr} {fixed : Settings} {loop next : Loop} {happening : Happening}
    {reports : List Report} (step : Step hash loop happening reports next)
    (poised : Poised hash own fixed loop.state.awdlState) :
    Poised hash own fixed next.state.awdlState := by
  obtain ⟨-, same, -⟩ | ⟨turn, report, -, inside, performed, -⟩ := step.called
  · rw [same]
    exact poised
  · exact perform_poised turn poised inside performed

/-- A call keeps the timers that the daemon counts on armed. -/
theorem Step.tends {loop next : Loop} {happening : Happening} {reports : List Report}
    (step : Step hash loop happening reports next)
    (covers : ∀ turn, turnOf happening = some turn → Covers bound loop.state.awdlState turn)
    (called : next.now = loop.now) (timer : Timer)
    (soon : Wants loop.state timer → Soon bound loop.now loop.deadline timer)
    (wants : Wants next.state timer) : Soon bound next.now next.deadline timer := by
  rw [called]
  cases step with
  | wait later forward => exact soon wants
  | timer fired due turn armed reached handler performed =>
      obtain ⟨serves, tends, -⟩ := perform_serving (covers turn rfl) handler performed
      by_cases same : timer = fired
      · subst same
        exact serves _ _ wants
      -- Another timer was not stopped.
      · refine tends timer _ _ (fun before => ?_) wants
        obtain ⟨date, set, near⟩ := soon before
        exact ⟨date, (Function.update_of_ne same _ _).trans set, near⟩
  | peerTimer clock reached performed =>
      cases performed
      exact soon wants
  | psfTimer env due reached passed near performed =>
      have calm := transmitting_ensures (awdlSendAction_tends loop.state env .psf) performed
      exact soon (wants_congr calm.1 calm.2.1 timer wants)
  | device turn device inside performed =>
      exact (perform_device (covers turn rfl) device performed).1 timer _ _ soon wants

/-- No frame waits without its timer, and no timer is far off. -/
structure Sound (hash : EtherAddr → UInt64) (own : EtherAddr) (fixed : Settings) (loop : Loop) :
    Prop where
  poised : Poised hash own fixed loop.state.awdlState
  attended : Attended reach loop.now loop.state loop.deadline
  peer : loop.peerDeadline ≤ loop.now + fixed.cleanInterval.toNat
  psf : loop.psfDeadline ≤ loop.now + 1024 * fixed.psfInterval.toNat

theorem Step.sound {own : EtherAddr} {fixed : Settings} {loop next : Loop} {happening : Happening}
    {reports : List Report} (step : Step hash loop happening reports next)
    (sound : Sound hash own fixed loop) : Sound hash own fixed next := by
  have poised := step.poised sound.poised
  have tends := step.tends fun turn _ => reach_covers sound.poised.aligned.toRegular turn
  have interval : loop.state.awdlState.peers.cleanInterval = fixed.cleanInterval :=
    congrArg Settings.cleanInterval sound.poised.settled
  have psfInterval : loop.state.awdlState.psfInterval = fixed.psfInterval :=
    congrArg Settings.psfInterval sound.poised.settled
  cases step with
  | wait later forward =>
      refine ⟨poised, fun timer wants => (sound.attended timer wants).later forward,
        sound.peer.trans ?_, sound.psf.trans ?_⟩
      · exact Nat.add_le_add_right forward _
      · exact Nat.add_le_add_right forward _
  | timer timer due turn armed reached handler performed =>
      exact ⟨poised, fun other => tends rfl other (sound.attended other), sound.peer, sound.psf⟩
  | peerTimer clock reached performed =>
      exact ⟨poised, fun other => tends rfl other (sound.attended other), by rw [interval], sound.psf⟩
  | psfTimer env next reached passed near performed =>
      exact ⟨poised, fun other => tends rfl other (sound.attended other), sound.peer,
        psfInterval ▸ near⟩
  | device turn device inside performed =>
      exact ⟨poised, fun other => tends rfl other (sound.attended other), sound.peer, sound.psf⟩

theorem Runs.sound {guard : Loop → Happening → Loop → Prop} {own : EtherAddr} {fixed : Settings}
    {start loop : Loop} {reports : List Report} (run : Runs hash guard start reports loop)
    (sound : Sound hash own fixed start) : Sound hash own fixed loop := by
  induction run with
  | start => exact sound
  | step run step allowed ih => exact step.sound ih

variable (memory : Fixed UInt8 (hostNameLengthMax + 1)) (slots : Fin txQueueLength → Buf)
  (hostname : List UInt8) (self : EtherAddr) (chan : AwdlChan) (clock : UInt64) (filterRssi : Bool)

theorem daemonInit_poised (hash : EtherAddr → UInt64) :
    Poised hash self (settings (daemonInit memory slots hostname self chan clock filterRssi).awdlState)
      (daemonInit memory slots hostname self chan clock filterRssi).awdlState :=
  ⟨daemonInit_apart hash memory slots hostname self chan clock filterRssi,
    awdlSyncStateInit_aligned clock, rfl⟩

theorem scheduled_sound (hash : EtherAddr → UInt64) (now : Nat) :
    Sound hash self (settings (daemonInit memory slots hostname self chan clock filterRssi).awdlState)
      (scheduled now (daemonInit memory slots hostname self chan clock filterRssi)) :=
  ⟨daemonInit_poised memory slots hostname self chan clock filterRssi hash,
    fun _ _ => ⟨now, rfl, Nat.le_add_right _ _⟩, Nat.le_refl _, Nat.le_refl _⟩

end Loop

end Owl.EventLoop
