import Owl.Hopping

/-!
Who is in the peer table. The cleanup runs once a second and drops entries that are
older than two seconds. In a loop that keeps up, a neighbour that has fallen silent is
therefore forgotten after three seconds, and a neighbour that has been heard is not
forgotten for two.
-/

namespace Owl.Presence

open Bytes Ether Siphash Channel Peers PeersRefine Wire State Frames Rx RxSpec RxPeers RxData Daemon Transmit
  DaemonRun DaemonTrace EventLoop Libev LibevLoop Hopping

section Calls

variable {hash : EtherAddr → UInt64} {own source : EtherAddr}

def entryOf (state : AwdlState) (source : EtherAddr) : Option Peer :=
  state.peers.peers.contents source

inductive Affects (hash : EtherAddr → UInt64) (source : EtherAddr) (turn : Turn)
    (before after : AwdlState) : Prop where
  | kept (same : entryOf after source = entryOf before source)
  | marked (env : RxEnv) (frame mac : Buf) (received : turn = .receiveFrame env frame)
      (found : macFrame env frame = some mac) (origin : macSource mac = source) (entry : Peer)
      (entered : entryOf after source = some entry) (updated : entry.lastUpdate = env.now)
  | refused (env : RxEnv) (frame mac : Buf) (received : turn = .receiveFrame env frame)
      (found : macFrame env frame = some mac)
      (full : (addPeer hash env before (macSource mac)).1 = .internal)
      (fewer : ∀ peer, entryOf after source = some peer → entryOf before source = some peer)
  | cleaned (now : UInt64) (called : turn = .cleanPeers now)
      (young : entryOf after source = (entryOf before source).filter fun peer =>
        !decide (peer.lastUpdate < now - before.peers.timeout))

theorem changes_affects {record : Record} (changes : Changes hash record)
    (valid : TableValid hash record.before.peers.peers) :
    Affects hash source record.turn record.before record.after := by
  cases changes with
  | quiet record same silent =>
      obtain ⟨_, _, _, after⟩ := same
      rw [after]
      exact .kept rfl
  | admitted before env frame mac outcome stats admits effect =>
      obtain ⟨touched, -⟩ := actionEffect_touched effect
      cases touched with
      | refused full table fewer => exact .refused env frame mac rfl admits.found full (fewer source)
      | entered entry contents updated stays =>
          by_cases origin : macSource mac = source
          · refine .marked env frame mac rfl admits.found origin entry ?_ updated
            rw [← origin]
            exact (congrFun contents _).trans (Function.update_self ..)
          · exact .kept ((congrFun contents _).trans (Function.update_of_ne (Ne.symm origin) ..))
  | cleaned before now => exact .cleaned now rfl (awdlCleanPeers_contents now valid source)

theorem perform_affects (source : EtherAddr) {state after : DaemonState} {turn : Turn}
    {report : Report}
    (apart : Apart hash own state.awdlState) (inside : turn.Inside)
    (performed : perform hash state turn = .ok (after, report)) :
    Affects hash source turn state.awdlState after.awdlState :=
  changes_affects (perform_changes apart inside performed) apart.valid.table

/-- An admitted frame for whose sender there is room makes or marks its entry. -/
theorem perform_admitted {state after : DaemonState} {env : RxEnv} {frame mac : Buf} {report : Report}
    (apart : Apart hash own state.awdlState) (inside : RadiotapInside env)
    (admits : Admits hash env state.awdlState frame mac)
    (room : (addPeer hash env state.awdlState (macSource mac)).1 ≠ .internal)
    (performed : perform hash state (.receiveFrame env frame) = .ok (after, report)) :
    ∃ entry, entryOf after.awdlState (macSource mac) = some entry ∧ entry.lastUpdate = env.now := by
  obtain ⟨outcome, final, -, effect⟩ := perform_admits apart inside admits performed
  obtain ⟨stats, same⟩ := afterReceive_eq outcome
  rw [final, same]
  obtain ⟨touched, -⟩ := actionEffect_touched effect
  cases touched with
  | refused full table fewer => exact absurd full room
  | entered entry contents updated stays =>
      exact ⟨entry, (congrFun contents _).trans (Function.update_self ..), updated⟩

end Calls

section Loop

variable {hash : EtherAddr → UInt64} {own source : EtherAddr} {loop next : Loop} {happening : Happening}
  {reports : List Report}

/-- The cleanup is not overdue and no entry is from the future. -/
structure Dated (loop : Loop) : Prop where
  cleanup : loop.now ≤ loop.peerDeadline
  entries : ∀ source peer, entryOf loop.state.awdlState source = some peer →
    peer.lastUpdate.toNat ≤ loop.now

theorem clockAt_le (now : Nat) : (clockAt now).toNat ≤ now := by
  rw [clockAt, UInt64.toNat_ofNat']
  exact Nat.mod_le _ _

theorem clockAt_toNat {now : Nat} (small : now < 2 ^ 64) : (clockAt now).toNat = now := by
  rw [clockAt, UInt64.toNat_ofNat']
  exact Nat.mod_eq_of_lt small

theorem step_cleanup (step : Step hash loop happening reports next) (prompt : Prompt loop happening)
    (punctual : loop.now ≤ loop.peerDeadline) : next.now ≤ next.peerDeadline := by
  cases step with
  | wait later forward => exact prompt.2.1
  | peerTimer clock reached performed => exact Nat.le_add_right _ _
  | _ => exact punctual

theorem step_dated (apart : Apart hash own loop.state.awdlState)
    (step : Step hash loop happening reports next) (prompt : Prompt loop happening)
    (dated : Dated loop) : Dated next := by
  refine ⟨step_cleanup step prompt dated.cleanup, ?_⟩
  intro source peer present
  obtain ⟨-, same, forward⟩ | ⟨turn, report, called, inside, performed, -, still⟩ := step.called
  · rw [same] at present
    exact (dated.entries source peer present).trans forward
  rw [still]
  cases perform_affects source apart inside performed with
  | kept same => exact dated.entries source peer (same ▸ present)
  | marked env frame mac received found origin entry entered updated =>
      subst received
      obtain rfl : entry = peer := Option.some.inj (entered.symm.trans present)
      rw [updated, prompt_reads prompt called]
      exact clockAt_le _
  | refused env frame mac received found full fewer =>
      exact dated.entries source peer (fewer peer present)
  | cleaned now called young =>
      rw [young] at present
      exact dated.entries source peer (Option.filter_eq_some_iff.mp present).1

def Hears (source : EtherAddr) (happening : Happening) : Prop :=
  ∃ env frame mac, turnOf happening = some (.receiveFrame env frame) ∧
    macFrame env frame = some mac ∧ macSource mac = source

def Room (hash : EtherAddr → UInt64) (loop : Loop) (happening : Happening) : Prop :=
  ∀ env frame mac, turnOf happening = some (.receiveFrame env frame) → macFrame env frame = some mac →
    (addPeer hash env loop.state.awdlState (macSource mac)).1 ≠ .internal

def Fading (since : Nat) (source : EtherAddr) (loop : Loop) : Prop :=
  ∀ peer, entryOf loop.state.awdlState source = some peer →
    peer.lastUpdate.toNat ≤ since ∧ loop.peerDeadline ≤ since + 3000000

def Remembered (since : Nat) (source : EtherAddr) (loop : Loop) : Prop :=
  ∃ peer, entryOf loop.state.awdlState source = some peer ∧ since ≤ peer.lastUpdate.toNat

/-- The cutoff of the cleanup. -/
theorem cutoff_toNat {now : Nat} (small : now < 2 ^ 64) (late : 2000000 ≤ now) :
    (clockAt now - 2000000).toNat = now - 2000000 := by
  have timeout : (2000000 : UInt64).toNat = 2000000 := rfl
  have order : (2000000 : UInt64) ≤ clockAt now := by
    rw [UInt64.le_iff_toNat_le, clockAt_toNat small, timeout]
    exact late
  rw [UInt64.toNat_sub_of_le _ _ order, clockAt_toNat small, timeout]

section Fade

variable {since : Nat}

theorem step_fading {fixed : Settings} (sound : Sound hash own fixed loop)
    (timeout : fixed.timeout = 2000000) (interval : fixed.cleanInterval = 1000000)
    (step : Step hash loop happening reports next) (prompt : Prompt loop happening)
    (silent : ¬ Hears source happening) (small : loop.now < 2 ^ 64)
    (fading : Fading since source loop) : Fading since source next := by
  -- No call gives the address a new entry.
  have older : ∀ peer, entryOf next.state.awdlState source = some peer →
      entryOf loop.state.awdlState source = some peer := by
    intro peer present
    obtain ⟨-, same, -⟩ | ⟨turn, report, called, inside, performed, -⟩ := step.called
    · rwa [same] at present
    cases perform_affects source sound.poised.apart inside performed with
    | kept same => exact same ▸ present
    | marked env frame mac received found origin entry entered updated =>
        exact absurd ⟨env, frame, mac, received ▸ called, found, origin⟩ silent
    | refused env frame mac received found full fewer => exact fewer peer present
    | cleaned now called young =>
        rw [young] at present
        exact (Option.filter_eq_some_iff.mp present).1
  intro peer present
  obtain ⟨old, due⟩ := fading peer (older peer present)
  cases step with
  | peerTimer clock reached performed =>
      refine ⟨old, ?_⟩
      have every : loop.state.awdlState.peers.cleanInterval = 1000000 :=
        (congrArg Settings.cleanInterval sound.poised.settled).trans interval
      have after : loop.state.awdlState.peers.timeout = 2000000 :=
        (congrArg Settings.timeout sound.poised.settled).trans timeout
      have million : (1000000 : UInt64).toNat = 1000000 := rfl
      show loop.now + _ ≤ _
      rw [every, million]
      by_contra late
      -- The cleanup has come too late for the entry to stay.
      cases performed
      have kept : entryOf (awdlCleanPeers clock loop.state.awdlState).1 source = some peer := present
      rw [entryOf, awdlCleanPeers_contents clock sound.poised.apart.valid.table source, after,
        show clock = clockAt loop.now from prompt] at kept
      have young := (Option.filter_eq_some_iff.mp kept).2
      rw [Bool.not_eq_true', decide_eq_false_iff_not, UInt64.lt_iff_toNat_lt,
        cutoff_toNat small (by omega)] at young
      omega
  | _ => exact ⟨old, due⟩

theorem step_remembered {fixed : Settings} (sound : Sound hash own fixed loop)
    (timeout : fixed.timeout = 2000000) (step : Step hash loop happening reports next)
    (prompt : Prompt loop happening) (room : Room hash loop happening) (late : 2000000 ≤ since)
    (begun : since ≤ loop.now) (soon : loop.now ≤ since + 2000000) (small : loop.now < 2 ^ 64)
    (remembered : Remembered since source loop) : Remembered since source next := by
  obtain ⟨peer, present, recent⟩ := remembered
  obtain ⟨-, same, -⟩ | ⟨turn, report, called, inside, performed, -⟩ := step.called
  · exact ⟨peer, by rw [same]; exact present, recent⟩
  have reads := prompt_reads prompt called
  cases perform_affects source sound.poised.apart inside performed with
  | kept same => exact ⟨peer, same.trans present, recent⟩
  | marked env frame mac received found origin entry entered updated =>
      subst received
      refine ⟨entry, entered, ?_⟩
      rw [updated, reads, clockAt_toNat small]
      exact begun
  | refused env frame mac received found full fewer =>
      exact absurd full (room env frame mac (received ▸ called) found)
  | cleaned now cleans young =>
      subst cleans
      refine ⟨peer, ?_, recent⟩
      have after : loop.state.awdlState.peers.timeout = 2000000 :=
        (congrArg Settings.timeout sound.poised.settled).trans timeout
      rw [young, present, after, show now = clockAt loop.now from reads]
      refine Option.filter_eq_some_iff.mpr ⟨rfl, ?_⟩
      rw [Bool.not_eq_true', decide_eq_false_iff_not, UInt64.lt_iff_toNat_lt,
        cutoff_toNat small (by omega)]
      omega

end Fade

theorem Step.forward (step : Step hash loop happening reports next) : loop.now ≤ next.now := by
  cases step with
  | wait later forward => exact forward
  | _ => exact Nat.le_refl _

end Loop

section Detector

variable {hash : EtherAddr → UInt64} {own source : EtherAddr} {fixed : Settings} {since : Nat}
  {guard : Loop → Happening → Loop → Prop} {start loop : Loop} {reports : List Report}

theorem runs_forward (run : Runs hash guard start reports loop) : start.now ≤ loop.now := by
  induction run with
  | start => exact Nat.le_refl _
  | step run step allowed ih => exact ih.trans (Step.forward step)

theorem runs_dated (prompt : ∀ loop happening next, guard loop happening next → Prompt loop happening)
    (run : Runs hash guard start reports loop) (sound : Sound hash own fixed start)
    (dated : Dated start) : Dated loop := by
  induction run with
  | start => exact dated
  | step run step allowed ih =>
      exact step_dated (run.sound sound).poised.apart step (prompt _ _ _ allowed) ih

theorem runs_fading (run : Runs hash (fun loop happening _ => Prompt loop happening ∧
      ¬ Hears source happening) start reports loop) (sound : Sound hash own fixed start)
    (timeout : fixed.timeout = 2000000) (interval : fixed.cleanInterval = 1000000)
    (dated : Dated start) (small : loop.now < 2 ^ 64) : Fading start.now source loop := by
  induction run with
  | start =>
      intro peer present
      refine ⟨dated.entries source peer present, sound.peer.trans ?_⟩
      have million : (1000000 : UInt64).toNat = 1000000 := rfl
      rw [interval, million]
      omega
  | step run step allowed ih =>
      have before := Nat.lt_of_le_of_lt (Step.forward step) small
      exact step_fading (run.sound sound) timeout interval step allowed.1 allowed.2 before (ih before)

theorem runs_remembered (run : Runs hash (fun loop happening _ => Prompt loop happening ∧
      Room hash loop happening) start reports loop) (sound : Sound hash own fixed start)
    (timeout : fixed.timeout = 2000000) (late : 2000000 ≤ start.now)
    (soon : loop.now ≤ start.now + 2000000) (small : loop.now < 2 ^ 64)
    (remembered : Remembered start.now source start) : Remembered start.now source loop := by
  induction run with
  | start => exact remembered
  | step run step allowed ih =>
      have forward := Step.forward step
      exact step_remembered (run.sound sound) timeout step allowed.1 allowed.2 late (runs_forward run)
        (by omega) (by omega) (ih (by omega) (by omega))

variable (memory : Fixed UInt8 (hostNameLengthMax + 1)) (slots : Fin txQueueLength → Buf)
  (hostname : List UInt8) (self : EtherAddr) (chan : AwdlChan) (clock : UInt64) (filterRssi : Bool)

theorem scheduled_dated (now : Nat) :
    Dated (scheduled now (daemonInit memory slots hostname self chan clock filterRssi)) :=
  ⟨Nat.le_add_right _ _, fun source peer present => by cases present⟩

def hearing (now : Nat) : Turn := .receiveFrame { zeroEnv with now := clockAt now } hopperMif

section Daemon

variable {World : Type} (ev : EvLoop Watcher World)

/-- An address that has not been heard for more than three seconds is not in the table. -/
theorem silent_peers_expire (documented : Documented ev) (hash : EtherAddr → UInt64) (fresh : World)
    (idle : ∀ watcher, ev.due fresh watcher = none) (reports : List Report) (middle : System World)
    (run : Evolutions ev hash (fun loop happening _ => Prompt loop happening)
      (awdlSchedule ev (daemonInit memory slots hostname self chan clock filterRssi) fresh)
      reports middle)
    (source : EtherAddr) (more : List Report) (system : System World)
    (silent : Evolutions ev hash (fun loop happening _ => Prompt loop happening ∧
      ¬ Hears source happening) middle more system)
    (long : ev.now middle.world + 3000000 < ev.now system.world)
    (small : ev.now system.world < 2 ^ 64) :
    (awdlPeerGet hash system.state.awdlState.peers.peers source).1 = .missing := by
  obtain ⟨run, wound⟩ :=
    daemon_runs ev memory slots hostname self chan clock filterRssi documented idle run
  have init := scheduled_sound memory slots hostname self chan clock filterRssi hash (ev.now fresh)
  have sound := run.sound init
  obtain ⟨silent, -⟩ := silent.runs documented
    (daemonInit_repeats memory slots hostname self chan clock filterRssi) wound sound.poised
  have dated := runs_dated (fun _ _ _ prompt => prompt) run init
    (scheduled_dated memory slots hostname self chan clock filterRssi (ev.now fresh))
  have fading : Fading (ev.now middle.world) source (view ev system) :=
    runs_fading silent sound rfl rfl dated small
  have punctual := (runs_dated (fun _ _ _ both => both.1) silent sound dated).cleanup
  have valid : TableValid hash system.state.awdlState.peers.peers :=
    (silent.sound sound).poised.apart.valid.table
  rw [awdlPeerGet_eq _ valid.map]
  cases present : system.state.awdlState.peers.peers.contents source with
  | none => rfl
  | some peer =>
      obtain ⟨-, due⟩ := fading peer present
      exact absurd (punctual.trans due) (Nat.not_le.mpr long)

theorem silent_peers_expire_once : ∃ (middle bench : Bench) (more : List Report),
    Evolutions plain addrHash (fun loop happening _ => Prompt loop happening ∧
        ¬ Hears peerAddr happening) middle more bench ∧
      (entryOf middle.state.awdlState peerAddr).isSome = true ∧
      (awdlPeerGet addrHash bench.state.awdlState.peers.peers peerAddr).1 = .missing := by
  have shown : ((attempt addrHash (awdlSchedule plain chatterStart (newLoop 0))
      (.device (hearing 0))).bind fun heard => (drive addrHash 250 heard.1).map fun done =>
        (heard.1.world.now, (entryOf heard.1.state.awdlState peerAddr).isSome, done.2.world.now)) =
      some (0, true, 3112960) := by
    decide +kernel
  obtain ⟨⟨middle, first⟩, heard, rest⟩ := Option.bind_eq_some_iff.mp shown
  obtain ⟨⟨more, bench⟩, driven, seen⟩ := Option.map_eq_some_iff.mp rest
  simp only [Prod.mk.injEq] at seen
  obtain ⟨begun, known, ended⟩ := seen
  obtain ⟨evolves, still⟩ :=
    attempt_steps (by rintro turn ⟨⟩; exact ⟨trivial, byteRadiotap_inside⟩) heard
  have silent : Evolutions plain addrHash (fun loop happening _ => Prompt loop happening ∧
      ¬ Hears peerAddr happening) middle more bench := by
    refine drive_follows (fun world _ _ still => ⟨still.1, ?_⟩) .start driven
    rintro ⟨env, frame, -, called, -⟩
    exact upcoming_deaf world env frame called
  refine ⟨middle, bench, more, silent, known, ?_⟩
  exact silent_peers_expire _ _ _ _ _ _ _ plain plain_documented addrHash (newLoop 0) (fun _ => rfl)
    first middle (.step .start evolves still.1) peerAddr more bench silent
    (show middle.world.now + 3000000 < bench.world.now by omega)
    (show bench.world.now < 2 ^ 64 by omega)

/-- An address from which an action frame has been admitted is in the table for two seconds. -/
theorem heard_peers_stay (documented : Documented ev) (hash : EtherAddr → UInt64) (fresh : World)
    (idle : ∀ watcher, ev.due fresh watcher = none) (reports : List Report)
    (before middle : System World)
    (run : Evolutions ev hash (fun loop happening _ => Prompt loop happening)
      (awdlSchedule ev (daemonInit memory slots hostname self chan clock filterRssi) fresh)
      reports before)
    (env : RxEnv) (frame mac : Buf) (heard : List Report)
    (evolves : Evolves ev hash before (.device (.receiveFrame env frame)) heard middle)
    (prompt : Prompt (view ev before) (.device (.receiveFrame env frame)))
    (admits : Admits hash env before.state.awdlState frame mac)
    (room : (addPeer hash env before.state.awdlState (macSource mac)).1 ≠ .internal)
    (more : List Report) (system : System World)
    (rest : Evolutions ev hash (fun loop happening _ => Prompt loop happening ∧
      Room hash loop happening) middle more system)
    (late : 2000000 ≤ ev.now middle.world)
    (soon : ev.now system.world ≤ ev.now middle.world + 2000000)
    (small : ev.now system.world < 2 ^ 64) :
    (awdlPeerGet hash system.state.awdlState.peers.peers (macSource mac)).1 = .ok := by
  have repeats := daemonInit_repeats memory slots hostname self chan clock filterRssi
  obtain ⟨run, wound⟩ :=
    daemon_runs ev memory slots hostname self chan clock filterRssi documented idle run
  have sound := run.sound
    (scheduled_sound memory slots hostname self chan clock filterRssi hash (ev.now fresh))
  obtain ⟨step, wound⟩ := evolves.step documented wound repeats sound.poised
  have after := step.sound sound
  obtain ⟨rest, -⟩ := rest.runs documented repeats wound after.poised
  have passed : ev.now middle.world ≤ ev.now system.world := runs_forward rest
  have known : Remembered (ev.now middle.world) (macSource mac) (view ev middle) := by
    have small' : ev.now before.world < 2 ^ 64 :=
      Nat.lt_of_le_of_lt ((Step.forward step).trans passed) small
    obtain ⟨none, -⟩ | ⟨turn, report, called, inside, performed, -, still⟩ := step.called
    · subst none
      cases evolves
    · cases called
      obtain ⟨entry, present, updated⟩ :=
        perform_admitted sound.poised.apart inside admits room performed
      refine ⟨entry, present, ?_⟩
      rw [updated, show env.now = clockAt (ev.now before.world) from prompt, clockAt_toNat small']
      exact Nat.le_of_eq still
  obtain ⟨peer, present, -⟩ := runs_remembered rest after rfl late soon small known
  have valid : TableValid hash system.state.awdlState.peers.peers :=
    (rest.sound after).poised.apart.valid.table
  rw [awdlPeerGet_eq _ valid.map,
    show system.state.awdlState.peers.peers.contents _ = some peer from present]

theorem heard_peers_stay_once : ∃ (middle bench : Bench) (more : List Report),
    Evolutions plain addrHash (fun loop happening _ => Prompt loop happening ∧
        Room addrHash loop happening) middle more bench ∧
      middle.world.now + 1000000 < bench.world.now ∧
      (awdlPeerGet addrHash bench.state.awdlState.peers.peers peerAddr).1 = .ok := by
  have shown : ((attempt addrHash (awdlSchedule plain chatterStart (newLoop 2000000))
      (.device (hearing 2000000))).bind fun heard => (drive addrHash 85 heard.1).map fun done =>
        (heard.1.world.now, done.2.world.now)) = some (2000000, 3014656) := by
    decide +kernel
  obtain ⟨⟨middle, first⟩, heard, rest⟩ := Option.bind_eq_some_iff.mp shown
  obtain ⟨⟨more, bench⟩, driven, seen⟩ := Option.map_eq_some_iff.mp rest
  simp only [Prod.mk.injEq] at seen
  obtain ⟨begun, ended⟩ := seen
  obtain ⟨evolves, still⟩ :=
    attempt_steps (by rintro turn ⟨⟩; exact ⟨trivial, byteRadiotap_inside⟩) heard
  have stays : Evolutions plain addrHash (fun loop happening _ => Prompt loop happening ∧
      Room addrHash loop happening) middle more bench := by
    refine drive_follows (fun world _ _ still => ⟨still.1, ?_⟩) .start driven
    intro env frame mac called
    exact absurd called (upcoming_deaf world env frame)
  refine ⟨middle, bench, more, stays, by omega, ?_⟩
  have source : macSource (hopperMif.drop 9) = peerAddr := by decide +kernel
  have admits : Admits addrHash { zeroEnv with now := clockAt 2000000 } chatterStart.awdlState hopperMif
      (hopperMif.drop 9) :=
    ⟨by decide +kernel, by decide +kernel, by decide +kernel, by decide +kernel,
      fun _ => by decide +kernel⟩
  rw [← source]
  exact heard_peers_stay _ _ _ _ _ _ _ plain plain_documented addrHash (newLoop 2000000)
    (fun _ => rfl) [] _ middle .start { zeroEnv with now := clockAt 2000000 } hopperMif
    (hopperMif.drop 9) first evolves still.1 admits (by decide +kernel) more bench stays
    (show 2000000 ≤ middle.world.now by omega)
    (show bench.world.now ≤ middle.world.now + 2000000 by omega)
    (show bench.world.now < 2 ^ 64 by omega)

end Daemon

end Detector

end Owl.Presence
