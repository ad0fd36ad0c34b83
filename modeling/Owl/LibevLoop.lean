import Owl.EventLoop
import Owl.Libev

/-!
The daemon on its event loop, with the calls of libev that `core.c` makes. Of libev
itself only the documentation is known. It makes every step of the loop one of the
timetable in `EventLoop`, so what holds along the runs of the timetable holds of the
daemon on any loop that behaves as documented.
-/

namespace Owl.LibevLoop

open Bytes Ether Channel Peers Wire State Frames Tx Rx RxSpec CircularBuffer Schedule Daemon Transmit
  TransmitQueues DaemonRun DaemonTrace EventLoop Libev Siphash

inductive Watcher where
  | timer (timer : Timer)
  | peer
  | psf
  deriving DecidableEq

structure System (World : Type) where
  world : World
  state : DaemonState

section Calls

variable {World : Type} (ev : EvLoop Watcher World)

def evTimerRearm (timer : Watcher) (delay : Int) (world : World) : World :=
  ev.evTimerStart timer (ev.evTimerSet timer delay 0 (ev.evTimerStop timer world))

def follow (world : World) : TxEvent → World
  | .timerRearm timer delay => evTimerRearm ev (.timer timer) delay world
  | _ => world

def followAll (events : List TxEvent) (world : World) : World := events.foldl (follow ev) world

/-- `ev_timer_init` and `ev_timer_start`. -/
def startTimer (timer : Watcher) (delay : Nat) (interval : Nat) (world : World) : World :=
  ev.evTimerStart timer (ev.evTimerSet timer delay interval world)

/-- `ev_timer_init` and `ev_timer_again`. -/
def repeatTimer (timer : Watcher) (interval : Nat) (world : World) : World :=
  ev.evTimerAgain timer (ev.evTimerSet timer 0 interval world)

def awdlSchedule (state : DaemonState) (world : World) : System World :=
  let cleanInterval := state.awdlState.peers.cleanInterval.toNat
  let psfInterval := 1024 * state.awdlState.psfInterval.toNat
  let world := startTimer ev (.timer .chan) 0 0 world
  let world := repeatTimer ev .peer cleanInterval world
  let world := startTimer ev .psf psfInterval psfInterval world
  let world := startTimer ev (.timer .mif) 0 0 world
  let world := startTimer ev (.timer .tx) 0 0 world
  ⟨startTimer ev (.timer .txMcast) 0 0 world, state⟩

/-- What happens to the daemon in its loop. A device may be ready at any time. -/
inductive Evolves (hash : EtherAddr → UInt64) (system : System World) :
    Happening → List Report → System World → Prop where
  | wait (world : World) (passes : ev.passes system.world world) :
      Evolves hash system (.wait (ev.now world)) [] { system with world := world }
  | timer {after : DaemonState} {report : Report} (timer : Timer) (turn : Turn) (world : World)
      (invoked : ev.invokes (.timer timer) system.world world) (handler : timerOf turn = some timer)
      (performed : perform hash system.state turn = .ok (after, report)) :
      Evolves hash system (.timer timer turn) [report] ⟨followAll ev report.events world, after⟩
  | peerTimer {after : DaemonState} {report : Report} (clock : UInt64) (world : World)
      (invoked : ev.invokes .peer system.world world)
      (performed : perform hash system.state (.cleanPeers clock) = .ok (after, report)) :
      Evolves hash system (.peerTimer clock) [report]
        ⟨ev.evTimerAgain .peer (followAll ev report.events world), after⟩
  | psfTimer {after : DaemonState} {report : Report} (env : TxEnv) (world : World)
      (invoked : ev.invokes .psf system.world world)
      (performed : perform hash system.state (.sendPsf env) = .ok (after, report)) :
      Evolves hash system (.psfTimer env) [report] ⟨followAll ev report.events world, after⟩
  | device {after : DaemonState} {report : Report} (turn : Turn) (device : Device turn)
      (inside : turn.Inside) (performed : perform hash system.state turn = .ok (after, report)) :
      Evolves hash system (.device turn) [report]
        ⟨followAll ev report.events system.world, after⟩

def view (system : System World) : Loop where
  now := ev.now system.world
  state := system.state
  deadline := ev.due system.world ∘ Watcher.timer
  peerDeadline := (ev.due system.world .peer).getD 0
  psfDeadline := (ev.due system.world .psf).getD 0

inductive Evolutions (hash : EtherAddr → UInt64) (guard : Loop → Happening → Loop → Prop)
    (start : System World) : List Report → System World → Prop where
  | start : Evolutions hash guard start [] start
  | step {reports more : List Report} {system next : System World} {happening : Happening}
      (run : Evolutions hash guard start reports system)
      (evolves : Evolves ev hash system happening more next)
      (allowed : guard (view ev system) happening (view ev next)) :
      Evolutions hash guard start (reports ++ more) next

end Calls

section Timetable

variable {World : Type} {ev : EvLoop Watcher World}

/-- The timers are configured as `awdl_schedule` does it, and those that repeat run. -/
structure Wound (ev : EvLoop Watcher World) (fixed : Settings) (world : World) : Prop where
  once : ∀ timer, ev.interval world (.timer timer) = 0
  peer : ev.interval world .peer = fixed.cleanInterval.toNat
  psf : ev.interval world .psf = 1024 * fixed.psfInterval.toNat
  peerRuns : ∃ due, ev.due world .peer = some due
  psfRuns : ∃ due, ev.due world .psf = some due

def Repeats (fixed : Settings) : Prop :=
  fixed.cleanInterval.toNat ≠ 0 ∧ 1024 * fixed.psfInterval.toNat ≠ 0

theorem timer_injective : Function.Injective Watcher.timer := fun _ _ same => Watcher.timer.inj same

theorem timers_update (due : Watcher → Option Nat) (timer : Timer) (next : Option Nat) :
    Function.update due (.timer timer) next ∘ Watcher.timer =
      Function.update (due ∘ Watcher.timer) timer next :=
  Function.update_comp_eq_of_injective due timer_injective timer next

structure Followed (ev : EvLoop Watcher World) (events : List TxEvent) (before after : World) :
    Prop where
  now : ev.now after = ev.now before
  timers : ev.due after ∘ Watcher.timer =
    applyEvents (ev.now before) events (ev.due before ∘ Watcher.timer)
  peer : ev.due after .peer = ev.due before .peer
  psf : ev.due after .psf = ev.due before .psf
  interval : ev.interval after = ev.interval before

theorem follow_followed (documented : Documented ev) (event : TxEvent) (world : World)
    (once : ∀ timer, ev.interval world (.timer timer) = 0) :
    Followed ev [event] world (follow ev world event) := by
  cases event with
  | timerRearm timer delay =>
      have changes : Changes ev (.timer timer) _ 0 world (evTimerRearm ev (.timer timer) delay world) :=
        documented.restart (.timer timer) delay 0 world
      refine ⟨changes.now, ?_, ?_, ?_, ?_⟩
      · rw [follow, changes.due, timers_update]
        rfl
      · rw [follow, changes.due]
        rfl
      · rw [follow, changes.due]
        rfl
      · rw [follow, changes.interval, Function.update_eq_self_iff.mpr (once timer).symm]
  | _ => exact ⟨rfl, rfl, rfl, rfl, rfl⟩

theorem followAll_followed (documented : Documented ev) (events : List TxEvent) (world : World)
    (once : ∀ timer, ev.interval world (.timer timer) = 0) :
    Followed ev events world (followAll ev events world) := by
  induction events generalizing world with
  | nil => exact ⟨rfl, rfl, rfl, rfl, rfl⟩
  | cons event rest ih =>
      have first := follow_followed documented event world once
      have later := ih (follow ev world event) fun timer => by rw [first.interval]; exact once timer
      refine ⟨later.now.trans first.now, later.timers.trans ?_, later.peer.trans first.peer,
        later.psf.trans first.psf, later.interval.trans first.interval⟩
      rw [first.timers, first.now]
      rfl

theorem Followed.wound {fixed : Settings} {events : List TxEvent} {before after : World}
    (followed : Followed ev events before after) (wound : Wound ev fixed before) :
    Wound ev fixed after :=
  ⟨fun timer => by rw [followed.interval]; exact wound.once timer,
    by rw [followed.interval]; exact wound.peer, by rw [followed.interval]; exact wound.psf,
    by rw [followed.peer]; exact wound.peerRuns, by rw [followed.psf]; exact wound.psfRuns⟩

/-- What a timer that has gone off leaves. -/
theorem Wound.changes {fixed : Settings} {watcher : Watcher} {next : Option Nat}
    {before after : World} (wound : Wound ev fixed before)
    (changes : Changes ev watcher next (ev.interval before watcher) before after)
    (peer : watcher = .peer → ∃ due, next = some due)
    (psf : watcher = .psf → ∃ due, next = some due) : Wound ev fixed after := by
  have interval : ev.interval after = ev.interval before := by
    rw [changes.interval, Function.update_eq_self]
  refine ⟨fun timer => by rw [interval]; exact wound.once timer,
    by rw [interval]; exact wound.peer, by rw [interval]; exact wound.psf, ?_, ?_⟩
  · by_cases same : watcher = .peer
    · subst same
      rw [changes.due, Function.update_self]
      exact peer rfl
    · rw [changes.due, Function.update_of_ne (Ne.symm same)]
      exact wound.peerRuns
  · by_cases same : watcher = .psf
    · subst same
      rw [changes.due, Function.update_self]
      exact psf rfl
    · rw [changes.due, Function.update_of_ne (Ne.symm same)]
      exact wound.psfRuns

section Steps

variable {hash : EtherAddr → UInt64} {own : EtherAddr} {fixed : Settings} {system : System World}
  {after : DaemonState} {report : Report} {world : World} (documented : Documented ev)
  (wound : Wound ev fixed system.world)

include documented wound

theorem wait_step (passes : ev.passes system.world world) :
    Step hash (view ev system) (.wait (ev.now world)) [] (view ev { system with world := world }) ∧
      Wound ev fixed world := by
  obtain ⟨forward, due, interval⟩ := documented.passes passes
  constructor
  · have same : view ev { system with world := world } =
        { view ev system with now := ev.now world } := by
      simp only [view, due]
    rw [same]
    exact .wait (ev.now world) forward
  · exact ⟨fun timer => by rw [interval]; exact wound.once timer,
      by rw [interval]; exact wound.peer, by rw [interval]; exact wound.psf,
      by rw [due]; exact wound.peerRuns, by rw [due]; exact wound.psfRuns⟩

theorem timer_step {timer : Timer} {turn : Turn} (invoked : ev.invokes (.timer timer) system.world world)
    (handler : timerOf turn = some timer)
    (performed : perform hash system.state turn = .ok (after, report)) :
    Step hash (view ev system) (.timer timer turn) [report]
        (view ev ⟨followAll ev report.events world, after⟩) ∧
      Wound ev fixed (followAll ev report.events world) := by
  obtain ⟨due, next, armed, reached, again, changes⟩ := documented.invokes invoked
  obtain rfl : next = none := by
    rw [wound.once timer] at again
    exact again
  have stopped := wound.changes changes (by rintro ⟨⟩) (by rintro ⟨⟩)
  have followed := followAll_followed documented report.events world stopped.once
  have same : view ev ⟨followAll ev report.events world, after⟩ =
      { view ev system with
        state := after
        deadline := applyEvents (view ev system).now report.events
          (Function.update (view ev system).deadline timer none) } := by
    simp only [view, followed.now, followed.timers, followed.peer, followed.psf, changes.now,
      changes.due, timers_update]
    rfl
  rw [same]
  exact ⟨.timer timer due turn armed reached handler performed, followed.wound stopped⟩

theorem peerTimer_step (repeats : Repeats fixed) {clock : UInt64}
    (clean : system.state.awdlState.peers.cleanInterval = fixed.cleanInterval)
    (invoked : ev.invokes .peer system.world world)
    (performed : perform hash system.state (.cleanPeers clock) = .ok (after, report)) :
    Step hash (view ev system) (.peerTimer clock) [report]
        (view ev ⟨ev.evTimerAgain .peer (followAll ev report.events world), after⟩) ∧
      Wound ev fixed (ev.evTimerAgain .peer (followAll ev report.events world)) := by
  obtain ⟨due, next, armed, reached, -, gone⟩ := documented.invokes invoked
  have every : ev.interval world .peer = ev.interval system.world .peer := by
    rw [gone.interval, Function.update_self]
  have again := documented.again .peer world (by rw [every, wound.peer]; exact repeats.1)
  rw [every, gone.now] at again
  have changes := gone.trans again
  cases performed
  refine ⟨?_, wound.changes changes (fun _ => ⟨_, rfl⟩) (by rintro ⟨⟩)⟩
  have same : view ev ⟨ev.evTimerAgain .peer world,
      { system.state with awdlState := (awdlCleanPeers clock system.state.awdlState).1 }⟩ =
      { view ev system with
        state := { system.state with awdlState := (awdlCleanPeers clock system.state.awdlState).1 }
        peerDeadline := (view ev system).now +
          (view ev system).state.awdlState.peers.cleanInterval.toNat } := by
    simp only [view, changes.now, changes.due, Function.update_self, wound.peer, clean]
    rfl
  have soon : (view ev system).peerDeadline ≤ (view ev system).now := by
    rw [view, armed]
    exact reached
  exact same ▸ .peerTimer clock soon rfl

theorem psfTimer_step (repeats : Repeats fixed) {env : TxEnv}
    (send : system.state.awdlState.psfInterval = fixed.psfInterval)
    (invoked : ev.invokes .psf system.world world)
    (performed : perform hash system.state (.sendPsf env) = .ok (after, report)) :
    Step hash (view ev system) (.psfTimer env) [report]
        (view ev ⟨followAll ev report.events world, after⟩) ∧
      Wound ev fixed (followAll ev report.events world) := by
  obtain ⟨due, next, armed, reached, again, changes⟩ := documented.invokes invoked
  rw [wound.psf, Again, if_neg repeats.2] at again
  obtain ⟨time, rfl, later, near⟩ := again
  have gone := wound.changes changes (by rintro ⟨⟩) fun _ => ⟨_, rfl⟩
  have followed := followAll_followed documented report.events world gone.once
  -- The handler touches no timer.
  have calm := transmitting_ensures (awdlSendAction_tends system.state env .psf) performed
  have timers : ev.due (followAll ev report.events world) ∘ Watcher.timer =
      ev.due system.world ∘ Watcher.timer := by
    rw [followed.timers]
    funext timer
    rw [applyEvents_spares (calm.2.2 timer), changes.due]
    rfl
  have same : view ev ⟨followAll ev report.events world, after⟩ =
      { view ev system with state := after, psfDeadline := time } := by
    simp only [view, followed.now, timers, followed.peer, followed.psf, changes.now, changes.due,
      Function.update_self]
    rfl
  have soon : (view ev system).psfDeadline = due := by
    rw [view, armed]
    rfl
  rw [same]
  refine ⟨.psfTimer env time (soon ▸ reached) (soon ▸ later) ?_ performed, followed.wound gone⟩
  show time ≤ _ + 1024 * system.state.awdlState.psfInterval.toNat
  rw [send]
  exact near

theorem device_step {turn : Turn} (device : Device turn) (inside : turn.Inside)
    (performed : perform hash system.state turn = .ok (after, report)) :
    Step hash (view ev system) (.device turn) [report]
        (view ev ⟨followAll ev report.events system.world, after⟩) ∧
      Wound ev fixed (followAll ev report.events system.world) := by
  have followed := followAll_followed documented report.events system.world wound.once
  have same : view ev ⟨followAll ev report.events system.world, after⟩ =
      { view ev system with
        state := after
        deadline := applyEvents (view ev system).now report.events (view ev system).deadline } := by
    simp only [view, followed.now, followed.timers, followed.peer, followed.psf]
  rw [same]
  exact ⟨.device turn device inside performed, followed.wound wound⟩

/-- A step of the daemon is one of its timetable. -/
theorem Evolves.step {next : System World} {happening : Happening} {reports : List Report}
    (evolves : Evolves ev hash system happening reports next) (repeats : Repeats fixed)
    (poised : Poised hash own fixed system.state.awdlState) :
    Step hash (view ev system) happening reports (view ev next) ∧ Wound ev fixed next.world := by
  cases evolves with
  | wait world passes => exact wait_step documented wound passes
  | timer timer turn world invoked handler performed =>
      exact timer_step documented wound invoked handler performed
  | peerTimer clock world invoked performed =>
      exact peerTimer_step documented wound repeats
        (congrArg Settings.cleanInterval poised.settled) invoked performed
  | psfTimer env world invoked performed =>
      exact psfTimer_step documented wound repeats (congrArg Settings.psfInterval poised.settled)
        invoked performed
  | device turn device inside performed => exact device_step documented wound device inside performed

end Steps

/-- A run of the daemon is one of its timetable. -/
theorem Evolutions.runs {hash : EtherAddr → UInt64} {own : EtherAddr} {fixed : Settings}
    {guard : Loop → Happening → Loop → Prop} {start system : System World} {reports : List Report}
    (run : Evolutions ev hash guard start reports system) (documented : Documented ev)
    (repeats : Repeats fixed) (wound : Wound ev fixed start.world)
    (poised : Poised hash own fixed start.state.awdlState) :
    Runs hash guard (view ev start) reports (view ev system) ∧ Wound ev fixed system.world ∧
      Poised hash own fixed system.state.awdlState := by
  induction run with
  | start => exact ⟨.start, wound, poised⟩
  | step run evolves allowed ih =>
      obtain ⟨runs, wound, poised⟩ := ih
      obtain ⟨step, after⟩ := evolves.step documented wound repeats poised
      exact ⟨runs.step step allowed, after, Step.poised step poised⟩

structure Started (ev : EvLoop Watcher World) (now : Nat) (due : Watcher → Option Nat)
    (interval : Watcher → Nat) (world : World) : Prop where
  now : ev.now world = now
  due : ev.due world = due
  interval : ev.interval world = interval

theorem Started.next {now next every : Nat} {due : Watcher → Option Nat} {interval : Watcher → Nat}
    {watcher : Watcher} {before after : World} (started : Started ev now due interval before)
    (changes : Changes ev watcher (some (ev.now before + next)) every before after) :
    Started ev now (Function.update due watcher (some (now + next)))
      (Function.update interval watcher every) after :=
  ⟨changes.now.trans started.now, by rw [changes.due, started.due, started.now],
    by rw [changes.interval, started.interval]⟩

theorem Started.start {now : Nat} {due : Watcher → Option Nat} {interval : Watcher → Nat}
    {world : World} (started : Started ev now due interval world) (documented : Documented ev)
    (timer : Watcher) (delay every : Nat) (idle : due timer = none) :
    Started ev now (Function.update due timer (some (now + delay)))
      (Function.update interval timer every) (startTimer ev timer delay every world) :=
  started.next (documented.init_start timer delay every world
    ((congrFun started.due timer).trans idle))

theorem Started.repeat {now : Nat} {due : Watcher → Option Nat} {interval : Watcher → Nat}
    {world : World} (started : Started ev now due interval world) (documented : Documented ev)
    (timer : Watcher) (every : Nat) (idle : due timer = none) (repeats : every ≠ 0) :
    Started ev now (Function.update due timer (some (now + every)))
      (Function.update interval timer every) (repeatTimer ev timer every world) :=
  started.next (documented.init_again timer 0 every world
    ((congrFun started.due timer).trans idle) repeats)

/-- `awdl_schedule` on a loop without timers begins the timetable. -/
theorem awdlSchedule_view (documented : Documented ev) (state : DaemonState)
    (repeats : Repeats (settings state.awdlState)) (world : World)
    (idle : ∀ watcher, ev.due world watcher = none) :
    view ev (awdlSchedule ev state world) = scheduled (ev.now world) state ∧
      Wound ev (settings state.awdlState) (awdlSchedule ev state world).world := by
  have begun : Started ev (ev.now world) (fun _ => none) (ev.interval world) world :=
    ⟨rfl, funext idle, rfl⟩
  have chan := begun.start documented (.timer .chan) 0 0 rfl
  have peer := chan.repeat documented .peer state.awdlState.peers.cleanInterval.toNat rfl repeats.1
  have psf := peer.start documented .psf (1024 * state.awdlState.psfInterval.toNat)
    (1024 * state.awdlState.psfInterval.toNat) rfl
  have mif := psf.start documented (.timer .mif) 0 0 rfl
  have tx := mif.start documented (.timer .tx) 0 0 rfl
  have started : Started ev _ _ _ (awdlSchedule ev state world).world :=
    tx.start documented (.timer .txMcast) 0 0 rfl
  refine ⟨?_, fun timer => ?_, ?_, ?_, ?_, ?_⟩
  · have timers : ev.due (awdlSchedule ev state world).world ∘ Watcher.timer =
        fun _ => some (ev.now world) := by
      rw [started.due]
      funext timer
      cases timer <;> rfl
    rw [view, timers, started.now, started.due]
    rfl
  · rw [started.interval]
    cases timer <;> rfl
  · rw [started.interval]
    rfl
  · rw [started.interval]
    rfl
  · rw [started.due]
    exact ⟨_, rfl⟩
  · rw [started.due]
    exact ⟨_, rfl⟩

end Timetable

section Attended

variable {World : Type} (ev : EvLoop Watcher World) (memory : Fixed UInt8 (hostNameLengthMax + 1))
  (slots : Fin txQueueLength → Buf) (hostname : List UInt8) (self : EtherAddr) (chan : AwdlChan)
  (clock : UInt64) (filterRssi : Bool)

theorem daemonInit_repeats :
    Repeats (settings (daemonInit memory slots hostname self chan clock filterRssi).awdlState) :=
  ⟨show (1000000 : UInt64).toNat ≠ 0 by decide, show 1024 * psfIntervalMasterTu.toNat ≠ 0 by decide⟩

/-- A run of a daemon from its initialisation is one of its timetable. -/
theorem daemon_runs {hash : EtherAddr → UInt64} {guard : Loop → Happening → Loop → Prop}
    {fresh : World} {reports : List Report} {system : System World} (documented : Documented ev)
    (idle : ∀ watcher, ev.due fresh watcher = none)
    (run : Evolutions ev hash guard
      (awdlSchedule ev (daemonInit memory slots hostname self chan clock filterRssi) fresh)
      reports system) :
    Runs hash guard
        (scheduled (ev.now fresh) (daemonInit memory slots hostname self chan clock filterRssi))
        reports (view ev system) ∧
      Wound ev (settings (daemonInit memory slots hostname self chan clock filterRssi).awdlState)
        system.world := by
  have repeats := daemonInit_repeats memory slots hostname self chan clock filterRssi
  obtain ⟨same, wound⟩ := awdlSchedule_view documented _ repeats fresh idle
  obtain ⟨runs, wound, -⟩ := run.runs documented repeats wound
    (daemonInit_poised memory slots hostname self chan clock filterRssi hash)
  exact ⟨same ▸ runs, wound⟩

/-- However late the loop is and whatever arrives: the channel and the MIF timers always run,
a frame in the slot or in the queue has its timer armed, and each of them goes off within an
extended window (the MIF timer within one and a half). -/
theorem no_frame_unattended (documented : Documented ev) (hash : EtherAddr → UInt64)
    (guard : Loop → Happening → Loop → Prop) (fresh : World)
    (idle : ∀ watcher, ev.due fresh watcher = none) (reports : List Report) (system : System World)
    (run : Evolutions ev hash guard
      (awdlSchedule ev (daemonInit memory slots hostname self chan clock filterRssi) fresh)
      reports system) :
    (∃ due, ev.due system.world (.timer .chan) = some due ∧ due ≤ ev.now system.world + 65536) ∧
      (∃ due, ev.due system.world (.timer .mif) = some due ∧ due ≤ ev.now system.world + 98304) ∧
      (system.state.next ≠ none →
        ∃ due, ev.due system.world (.timer .tx) = some due ∧ due ≤ ev.now system.world + 65536) ∧
      (contents system.state.txQueueMulticast ≠ [] → ∃ due,
        ev.due system.world (.timer .txMcast) = some due ∧ due ≤ ev.now system.world + 65536) ∧
      (∃ due, ev.due system.world .peer = some due ∧
        due ≤ ev.now system.world + system.state.awdlState.peers.cleanInterval.toNat) ∧
      ∃ due, ev.due system.world .psf = some due ∧
        due ≤ ev.now system.world + 1024 * system.state.awdlState.psfInterval.toNat := by
  obtain ⟨runs, wound⟩ :=
    daemon_runs ev memory slots hostname self chan clock filterRssi documented idle run
  have sound := runs.sound
    (scheduled_sound memory slots hostname self chan clock filterRssi hash (ev.now fresh))
  have settled := sound.poised.settled
  refine ⟨sound.attended .chan trivial, sound.attended .mif trivial, ?_, ?_, ?_, ?_⟩
  · exact fun waits => sound.attended .tx (Option.isSome_iff_ne_none.mpr waits)
  · intro waits
    refine sound.attended .txMcast (Bool.eq_false_iff.mpr fun empty => waits ?_)
    exact (empty_iff _).mp empty
  · obtain ⟨due, runs⟩ := wound.peerRuns
    have near := sound.peer
    rw [view, runs] at near
    refine ⟨due, runs, ?_⟩
    rw [show system.state.awdlState.peers.cleanInterval = _ from
      congrArg Settings.cleanInterval settled]
    exact near
  · obtain ⟨due, runs⟩ := wound.psfRuns
    have near := sound.psf
    rw [view, runs] at near
    refine ⟨due, runs, ?_⟩
    rw [show system.state.awdlState.psfInterval = _ from congrArg Settings.psfInterval settled]
    exact near

def newLoop (now : Nat) : Plain Watcher := ⟨now, fun _ => none, fun _ => 0, fun _ => 0⟩

/-- Two broadcasts in the guard at the start of the first slot: both wait, with their timer. -/
theorem no_frame_unattended_guard : ∃ reports system,
    Evolutions plain addrHash (fun _ _ _ => True) (awdlSchedule plain chatterStart (newLoop 0))
        reports system ∧
      contents system.state.txQueueMulticast ≠ [] ∧
      ∃ due, system.world.due (.timer .txMcast) = some due ∧ due ≤ system.world.now + 65536 := by
  have shown : ((perform addrHash chatterStart (.hostDeviceReady .bits64
      [hostFrame etherBroadcast, hostFrame etherBroadcast] 0 0)).map fun done =>
        (contents done.1.txQueueMulticast).length).toOption = some 2 := by
    decide +kernel
  obtain ⟨done, performed, two⟩ := toOption_map_some shown
  have begun : Evolutions plain addrHash (fun _ _ _ => True)
      (awdlSchedule plain chatterStart (newLoop 0)) [] _ := .start
  have run := begun.step
    (.device (.hostDeviceReady .bits64 [hostFrame etherBroadcast, hostFrame etherBroadcast] 0 0)
      trivial trivial performed) trivial
  have waits : contents done.1.txQueueMulticast ≠ [] := by
    intro empty
    rw [empty] at two
    cases two
  obtain ⟨-, -, -, armed, -⟩ := no_frame_unattended plain _ _ _ _ _ _ _ plain_documented addrHash _
    (newLoop 0) (fun _ => rfl) _ _ run
  exact ⟨_, _, run, waits, armed waits⟩

end Attended

end Owl.LibevLoop
