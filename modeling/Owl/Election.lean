import Owl.Ether

/-!
`struct awdl_election_state` and the comparisons of `election.c`. Counters,
metrics and heights are unsigned 32-bit numbers from the air.
-/

namespace Owl.Election

open Ether

def awdlElectionTreeMaxHeight : UInt32 := 10
def awdlElectionMetricInit : UInt32 := 60
def awdlElectionCounterInit : UInt32 := 0

structure ElectionState where
  masterAddr : EtherAddr
  syncAddr : EtherAddr
  selfAddr : EtherAddr
  height : UInt32
  masterMetric : UInt32
  selfMetric : UInt32
  masterCounter : UInt32
  selfCounter : UInt32
  deriving DecidableEq, Repr

def awdlElectionIsSyncMaster (state : ElectionState) (addr : EtherAddr) : Bool :=
  compareEtherAddr state.syncAddr addr == .eq

def awdlElectionResetMetric (state : ElectionState) : ElectionState :=
  { state with
    selfCounter := awdlElectionCounterInit
    selfMetric := awdlElectionMetricInit }

def awdlElectionResetSelf (state : ElectionState) : ElectionState :=
  { state with
    height := 0
    masterAddr := state.selfAddr
    syncAddr := state.selfAddr
    masterMetric := state.selfMetric
    masterCounter := state.selfCounter }

def awdlElectionStateInit (self : EtherAddr) : ElectionState :=
  awdlElectionResetSelf (awdlElectionResetMetric
    { masterAddr := self
      syncAddr := self
      selfAddr := self
      height := 0
      masterMetric := 0
      selfMetric := 0
      masterCounter := 0
      selfCounter := 0 })

def compareU32 (a b : UInt32) : Ordering :=
  if a < b then .lt else if a > b then .gt else .eq

def awdlElectionCompareMaster (a b : ElectionState) : Ordering :=
  match compareU32 a.masterCounter b.masterCounter with
  | .eq => compareU32 a.masterMetric b.masterMetric
  | result => result

theorem isSyncMaster_iff (state : ElectionState) (addr : EtherAddr) :
    awdlElectionIsSyncMaster state addr = true ↔ state.syncAddr = addr := by
  simp [awdlElectionIsSyncMaster, compareEtherAddr_eq_iff]

def ElectionState.rank (state : ElectionState) : Nat :=
  state.masterCounter.toNat * 2 ^ 32 + state.masterMetric.toNat

def ElectionState.selfRank (state : ElectionState) : Nat :=
  state.selfCounter.toNat * 2 ^ 32 + state.selfMetric.toNat

theorem compareMaster_rank (a b : ElectionState) :
    awdlElectionCompareMaster a b = compare a.rank b.rank := by
  have aMetric := a.masterMetric.toNat_lt
  have bMetric := b.masterMetric.toNat_lt
  simp only [awdlElectionCompareMaster, compareU32, ElectionState.rank, Nat.compare_eq_ite_lt,
    UInt32.lt_iff_toNat_lt, GT.gt]
  split
  all_goals grind

@[simp] theorem resetSelf_selfAddr (state : ElectionState) :
    (awdlElectionResetSelf state).selfAddr = state.selfAddr := rfl

@[simp] theorem resetSelf_syncAddr (state : ElectionState) :
    (awdlElectionResetSelf state).syncAddr = state.selfAddr := rfl

@[simp] theorem resetSelf_height (state : ElectionState) :
    (awdlElectionResetSelf state).height = 0 := rfl

@[simp] theorem resetSelf_rank (state : ElectionState) :
    (awdlElectionResetSelf state).rank = state.selfRank := rfl

end Owl.Election
