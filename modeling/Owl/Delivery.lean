import Owl.Hopping
import Owl.Retries

/-!
Multicast frames leave in time. The retries of `awdl_send_multicast` never pass over the
end of a window in which it may send, and the host handler, which may set the timer anew
at any moment, cannot either. So in a loop that keeps up, the queue runs empty at the
latest at the end of the second such window, and every frame that waited has been handed
to `awdl_send_data` in its order.
-/

namespace Owl.Delivery

open Bytes Ether Channel Sync SyncTransfer SyncClock Peers PeersRefine Wire State Frames Tx Rx RxSpec
  RxPeers CircularBuffer Schedule Daemon Transmit TransmitQueues DaemonRun ClockMaster Airtime
  DaemonTrace EventLoop Libev LibevLoop Hopping Counters Retries Siphash

section Window

/-- The time from a point of the schedule to the end of the next window for multicast frames:
the slots 0 and 10 without the guard at their end. -/
def untilWindowEnd (point : Nat) : Nat :=
  if point % 1048576 ≤ 49152 then 49152 - point % 1048576
  else if point % 1048576 ≤ 704512 then 704512 - point % 1048576
  else 1097728 - point % 1048576

theorem untilWindowEnd_le (point : Nat) : untilWindowEnd point ≤ 655360 := by
  unfold untilWindowEnd
  split_ifs <;> omega

/-- Up to its end the window stays the next one. -/
theorem untilWindowEnd_later (point passed : Nat) (inside : passed ≤ untilWindowEnd point) :
    untilWindowEnd ((point + passed) % 2 ^ 30) = untilWindowEnd point - passed := by
  have circle : (point + passed) % 2 ^ 30 % 1048576 = (point + passed) % 1048576 := by omega
  unfold untilWindowEnd at *
  rw [circle]
  split_ifs at inside ⊢ <;> omega

/-- A retry is never behind the end of the next window. -/
theorem multicastWait_window (point : Nat)
    (apart : ¬ (Social (point / 65536 % 16) ∧ guardDelay 16 (point % 65536) = 0)) :
    multicastWait (point % 65536) ≤ untilWindowEnd point := by
  rw [guardDelay_eq_zero_iff 16 _ (Nat.mod_lt _ (by decide))] at apart
  unfold Social at apart
  unfold multicastWait untilWindowEnd
  split_ifs <;> omega

theorem retries_window (long : LongWidth) (now : Nat) (state : AwdlState)
    (aligned : Aligned state.sync) :
    RetriesWithin long (clockAt now) (untilWindowEnd (position (clockAt now) state.sync)) state := by
  have inside := phase_lt (clockAt now) state.sync
  have phased := position_phase (clockAt now) aligned
  have entry := slot_entry long now aligned.toRegular
  have delay : awdlCanSendIn long state (clockAt now) awdlMulticastGuardTu =
      guardDelay 16 (phase (clockAt now) state.sync) :=
    canSendIn_phase long state (clockAt now) 16 aligned.toRegular (by decide)
  have social : awdlIsMulticastEaw long state (clockAt now) = true ↔
      Social (slot long (clockAt now) state.sync) := by
    unfold awdlIsMulticastEaw Social slot
    simp only [Bool.or_eq_true, beq_iff_eq]
  unfold RetriesWithin
  rw [social, delay, multicastRetry_eq long _ inside, entry, entryAt, ← phased]
  by_cases sends : Social (position (clockAt now) state.sync / 65536 % 16) ∧
      guardDelay 16 (position (clockAt now) state.sync % 65536) = 0
  · exact .inl sends
  · exact .inr (Int.ofNat_le.mpr (multicastWait_window _ sends))

end Window

section Queue

def groupHanded (events : List TxEvent) : List Buf := (framesHanded events).filter isMulticast

theorem groupHanded_append (early late : List TxEvent) :
    groupHanded (early ++ late) = groupHanded early ++ groupHanded late := by
  rw [groupHanded, framesHanded_append, List.filter_append]
  rfl

def Leaves (before : DaemonState) (events : List TxEvent) (after : DaemonState) : Prop :=
  ∃ input, Fifo (contents before.txQueueMulticast) input (groupHanded events)
    (contents after.txQueueMulticast)

theorem Leaves.trans {first second third : DaemonState} {early late : List TxEvent}
    (left : Leaves first early second) (right : Leaves second late third) :
    Leaves first (early ++ late) third := by
  obtain ⟨input, first⟩ := left
  obtain ⟨more, second⟩ := right
  refine ⟨input ++ more, ?_⟩
  rw [groupHanded_append]
  exact first.trans second

theorem leaves_quiet {before after : DaemonState} {events : List TxEvent}
    (queue : after.txQueueMulticast = before.txQueueMulticast) (none : framesHanded events = []) :
    Leaves before events after := by
  refine ⟨[], ?_⟩
  rw [groupHanded, none, queue]
  exact (List.append_nil _).symm

theorem shifts_leaves {before after : DaemonState} {events : List TxEvent}
    (shifts : Shifts before events after) : Leaves before events after := by
  induction shifts with
  | moves moves short => exact ⟨_, moves.multicast⟩
  | lost buf short state => exact leaves_quiet rfl rfl
  | trans left right first second => exact first.trans second

theorem perform_leaves {hash : EtherAddr → UInt64} {own : EtherAddr} {state after : DaemonState}
    {turn : Turn} {report : Report} (fit : Fit hash own state) (inside : turn.Inside)
    (performed : perform hash state turn = .ok (after, report)) :
    Leaves state report.events after := by
  obtain ⟨shifts, -⟩ := perform_moves fit inside performed
  exact shifts_leaves shifts

end Queue

section Runs

variable {hash : EtherAddr → UInt64} {own : EtherAddr} {fixed : Settings}

theorem runs_leaves {guard : Loop → Happening → Loop → Prop} {start loop : Loop}
    {reports : List Report} (run : Runs hash guard start reports loop)
    (fit : Fit hash own start.state) : Leaves start.state (eventsOf reports) loop.state := by
  induction run with
  | start => exact leaves_quiet rfl rfl
  | step run step allowed ih =>
      rw [eventsOf_append]
      refine ih.trans ?_
      obtain ⟨rfl, same, -⟩ | ⟨turn, report, -, inside, performed, rfl, -⟩ := step.called
      · rw [same]
        exact leaves_quiet rfl rfl
      · rw [show eventsOf [report] = report.events from List.append_nil _]
        exact perform_leaves (run.performed.fit fit) inside performed

theorem prompt_asks {loop : Loop} {happening : Happening} {turn : Turn} {long : LongWidth}
    {clock : UInt64} (prompt : Prompt loop happening) (called : turnOf happening = some turn)
    (asked : asks turn = some (long, clock)) : clock = clockAt loop.now := by
  have reads := prompt_reads prompt called
  cases turn with
  | sendMulticast width now =>
      cases asked
      exact reads
  | hostDeviceReady width reads' multicastNow unicastNow =>
      cases asked
      exact reads.1
  | _ => cases asked

/-- The timer of the queue goes off soon after the beginning, or before the end of the next
window, which is not far from the beginning either. -/
def Bounded (begun : Nat) (loop : Loop) : Prop :=
  ∃ due, loop.deadline .txMcast = some due ∧ (due ≤ begun + 65536 ∨
    due ≤ loop.now + untilWindowEnd (position (clockAt loop.now) loop.state.awdlState.sync) ∧
      loop.now + untilWindowEnd (position (clockAt loop.now) loop.state.awdlState.sync) ≤
        begun + 720896)

theorem step_bounded {begun : Nat} {loop next : Loop} {happening : Happening} {reports : List Report}
    (step : Step hash loop happening reports next) (aligned : Aligned loop.state.awdlState.sync)
    (still : Still loop happening next) (ahead : Ahead loop.now loop.deadline)
    (bounded : Bounded begun loop)
    (filled : circularBufEmpty next.state.txQueueMulticast = false) : Bounded begun next := by
  obtain ⟨due, armed, bound⟩ := bounded
  have coming := ahead .txMcast due armed
  have near := untilWindowEnd_le (position (clockAt loop.now) loop.state.awdlState.sync)
  have calls : next.now = loop.now → Bounded begun next := by
    intro called
    -- A call leaves the timer as it is, or sets it before the end of the next window.
    obtain ⟨limit, same⟩ : ∃ limit, limit = max (untilWindowEnd
      (position (clockAt loop.now) loop.state.awdlState.sync)) (due - loop.now) := ⟨_, rfl⟩
    have covers : ∀ turn, turnOf happening = some turn →
        Covers (Function.update reach .txMcast limit) loop.state.awdlState turn := by
      intro turn calling
      obtain ⟨regular, mif, tx, chan, -⟩ := reach_covers aligned.toRegular turn
      refine ⟨regular, mif, tx, chan, fun long clock asked => ?_⟩
      rw [prompt_asks still.1 calling asked, Function.update_self]
      exact (retries_window long loop.now loop.state.awdlState aligned).imp_right fun within =>
        within.trans (Int.ofNat_le.mpr (by omega))
    obtain ⟨date, set, soon⟩ := step.tends covers called .txMcast
      (fun _ => ⟨due, armed, by rw [Function.update_self]; omega⟩) filled
    rw [Function.update_self] at soon
    refine ⟨date, set, ?_⟩
    rw [called, position_clock still.2]
    omega
  cases step with
  | wait later forward =>
      have early : later ≤ due := still.1.1 .txMcast due armed
      refine ⟨due, armed, bound.imp_right fun window => ?_⟩
      show due ≤ later + untilWindowEnd (position (clockAt later) loop.state.awdlState.sync) ∧
        later + untilWindowEnd (position (clockAt later) loop.state.awdlState.sync) ≤ _
      rw [position_later forward, untilWindowEnd_later _ _ (by omega)]
      omega
  | _ => exact calls rfl

/-- Along a run the queue runs empty, or its timer is bounded. -/
theorem runs_emptied {start loop : Loop} {reports : List Report}
    (run : Runs hash Still start reports loop) (sound : Sound hash own fixed start)
    (ahead : Ahead start.now start.deadline) :
    (∃ early late middle, reports = early ++ late ∧ Runs hash Still start early middle ∧
        circularBufEmpty middle.state.txQueueMulticast = true) ∨ Bounded start.now loop := by
  induction run with
  | start =>
      cases filled : circularBufEmpty start.state.txQueueMulticast with
      | true => exact .inl ⟨[], [], start, rfl, .start, filled⟩
      | false =>
          obtain ⟨due, armed, near⟩ := sound.attended .txMcast filled
          exact .inr ⟨due, armed, .inl near⟩
  | @step reports more loop next happening run step allowed ih =>
      obtain ⟨early, late, middle, rfl, before, empty⟩ | bounded := ih
      · exact .inl ⟨early, late ++ more, middle, List.append_assoc _ _ _, before, empty⟩
      cases filled : circularBufEmpty next.state.txQueueMulticast with
      | true =>
          exact .inl ⟨reports ++ more, [], next, (List.append_nil _).symm, run.step step allowed, filled⟩
      | false =>
          have before := runs_ahead (fun _ _ _ still => still.1) run ahead
          exact .inr (step_bounded step (run.sound sound).poised.aligned allowed before bounded filled)

variable {World : Type} (ev : EvLoop Watcher World) (memory : Fixed UInt8 (hostNameLengthMax + 1))
  (slots : Fin txQueueLength → Buf) (hostname : List UInt8) (self : EtherAddr) (chan : AwdlChan)
  (clock : UInt64) (filterRssi : Bool)

/-- In a loop that keeps up and whose clock nobody moves for eleven extended windows, every
multicast frame that waited at the beginning has been handed to `awdl_send_data`, in the order
of the queue, whatever else has come in meanwhile. -/
theorem multicast_frames_leave (documented : Documented ev) (hash : EtherAddr → UInt64)
    (terminated : 0 ∈ (strncpyName memory hostname).toList) (fresh : World)
    (idle : ∀ watcher, ev.due fresh watcher = none) (reports : List Report) (middle : System World)
    (run : Evolutions ev hash (fun loop happening _ => Prompt loop happening)
      (awdlSchedule ev (daemonInit memory slots hostname self chan clock filterRssi) fresh)
      reports middle)
    (more : List Report) (system : System World)
    (still : Evolutions ev hash Still middle more system)
    (long : ev.now middle.world + 11 * 65536 < ev.now system.world) :
    contents middle.state.txQueueMulticast <+:
      (framesHanded (eventsOf more)).filter isMulticast := by
  obtain ⟨run, wound⟩ :=
    daemon_runs ev memory slots hostname self chan clock filterRssi documented idle run
  have sound := run.sound
    (scheduled_sound memory slots hostname self chan clock filterRssi hash (ev.now fresh))
  obtain ⟨still, -⟩ := still.runs documented
    (daemonInit_repeats memory slots hostname self chan clock filterRssi) wound sound.poised
  have ahead := runs_ahead (fun _ _ _ prompt => prompt) run (scheduled_ahead (ev.now fresh) _)
  have fit := run.performed.fit
    (daemonInit_fit memory slots hostname self chan clock filterRssi hash terminated)
  obtain ⟨early, late, empty, rfl, first, nothing⟩ | ⟨due, armed, bound⟩ :=
    runs_emptied still sound ahead
  · obtain ⟨input, fifo⟩ := runs_leaves first fit
    rw [(empty_iff _).mp nothing] at fifo
    rw [eventsOf_append]
    show _ <+: groupHanded _
    rw [groupHanded_append]
    refine List.IsPrefix.trans ⟨input, ?_⟩ (List.prefix_append _ _)
    exact fifo.symm.trans (List.append_nil _)
  -- The queue cannot have waited for so long.
  · have coming := runs_ahead (fun _ _ _ still => still.1) still ahead .txMcast due armed
    have now : (view ev middle).now + 11 * 65536 < (view ev system).now := long
    omega

/-- Two broadcasts in the guard at the start of the first slot, and sixty-one steps. -/
theorem multicast_frames_leave_broadcast : ∃ (middle bench : Bench) (more : List Report),
    Evolutions plain addrHash Still middle more bench ∧
      (contents middle.state.txQueueMulticast).length = 2 ∧
      contents middle.state.txQueueMulticast <+:
        (framesHanded (eventsOf more)).filter isMulticast := by
  have shown : ((attempt addrHash (awdlSchedule plain chatterStart (newLoop 0))
      (.device (.hostDeviceReady .bits64 [hostFrame etherBroadcast, hostFrame etherBroadcast] 0
        0))).bind fun polled =>
        (drive addrHash 61 polled.1).map fun done => (polled.1.world.now,
          (contents polled.1.state.txQueueMulticast).length, done.2.world.now)) =
      some (0, 2, 753664) := by
    decide +kernel
  obtain ⟨⟨middle, first⟩, polled, rest⟩ := Option.bind_eq_some_iff.mp shown
  obtain ⟨⟨more, bench⟩, driven, seen⟩ := Option.map_eq_some_iff.mp rest
  simp only [Prod.mk.injEq] at seen
  obtain ⟨begun, two, ended⟩ := seen
  obtain ⟨evolves, still⟩ := attempt_steps (by rintro turn ⟨⟩; exact ⟨trivial, trivial⟩) polled
  have run : Evolutions plain addrHash (fun loop happening _ => Prompt loop happening)
      (awdlSchedule plain chatterStart (newLoop 0)) first middle := .step .start evolves still.1
  have moves : Evolutions plain addrHash Still middle more bench :=
    drive_follows (fun _ _ _ still => still) .start driven
  refine ⟨middle, bench, more, moves, two, ?_⟩
  exact multicast_frames_leave plain _ _ _ _ _ _ _ plain_documented addrHash (by decide) (newLoop 0)
    (fun _ => rfl) first middle run more bench moves
    (show middle.world.now + 11 * 65536 < bench.world.now by omega)

end Runs

end Owl.Delivery
