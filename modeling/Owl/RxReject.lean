import Owl.RxAction

/-!
TLVs that are refused. Most handlers read every field of a TLV before they
change the peer, so that a TLV which ends too early leaves no trace. The two
election handlers and the one for the data path state write each field as soon
as it was read. For these the condition under which a refused TLV has already
changed the entry is exact: it names the fields in front of the missing one that
differ from what was stored.
-/

namespace Owl.RxReject

open Bytes Ether Channel Sync Election Peers Wire State Frames RxTlv Rx RxSpec RxAction

def Clean (src : Peer) (state : AwdlState) (result : RxResult × Peer × AwdlState) : Prop :=
  result.1.code < 0 → result.2.1 = src ∧ result.2.2 = state

theorem Clean.same (src : Peer) (state : AwdlState) (result : RxResult) :
    Clean src state (result, src, state) := fun _ => ⟨rfl, rfl⟩

theorem Clean.accepted (src peer : Peer) (state after : AwdlState) :
    Clean src state (.ok, peer, after) :=
  fun negative => absurd negative (show ¬ RxResult.ok.code < 0 by decide)

theorem clean_tooShort (src peer : Peer) (state : AwdlState) :
    Clean src state (.tooShort, peer, state) ↔ peer = src := by
  constructor
  · intro clean
    exact (clean (show RxResult.tooShort.code < 0 by decide)).1
  · rintro rfl
    exact Clean.same peer state .tooShort

section Handlers

variable (src : Peer) (val : Buf) (state : AwdlState)

theorem awdlHandleSyncParamsTlv_clean (long : LongWidth) (now : UInt64) :
    Returns (awdlHandleSyncParamsTlv long src val state now) (Clean src state) := by
  unfold awdlHandleSyncParamsTlv
  simp (disch := decide) only [readLe16_eq, except_ok_bind, Int.reduceToNat, except_pure]
  repeat' (first | exact .ok _ (Clean.same src state _) | exact .ok _ (Clean.accepted _ _ _ _) | split)

theorem awdlHandleChanseqTlv_clean (list : ChanSeq) :
    Returns (awdlHandleChanseqTlv list src val state) (Clean src state) := by
  rcases awdlHandleChanseqTlv_headFirst val state with ⟨-, result, -, refuses⟩ | ⟨-, copies⟩
  · exact ⟨_, refuses list src, Clean.same src state result⟩
  obtain ⟨read, -, -, run⟩ := copies list src
  refine ⟨_, run, ?_⟩
  -- The copy fills a local array.
  cases read with
  | none => exact Clean.same src state _
  | some list => exact Clean.accepted _ _ _ _

theorem awdlHandleArpaTlv_clean :
    Returns (awdlHandleArpaTlv src val state) (Clean src state) := by
  have name := readIntString_eq val 1 (by decide) src.name hostNameLengthMax (by decide)
    (by decide) (by decide)
  unfold awdlHandleArpaTlv
  simp only [name, except_ok_bind, except_pure]
  repeat' (first | exact .ok _ (Clean.same src state _) | exact .ok _ (Clean.accepted _ _ _ _) | split)

theorem awdlHandleVersionTlv_clean :
    Returns (awdlHandleVersionTlv src val state) (Clean src state) := by
  unfold awdlHandleVersionTlv
  simp (disch := decide) only [readU8_eq, except_ok_bind, Int.reduceToNat, except_pure]
  repeat' (first | exact .ok _ (Clean.same src state _) | exact .ok _ (Clean.accepted _ _ _ _) | split)

/-- An election parameters TLV that ends behind a field that is new to the entry. -/
def TornElection (bytes : List UInt8) : Prop :=
  src.supportsV2 = false ∧ bytes.length < 19 ∧
    (4 ≤ bytes.length ∧ (byteAt bytes 3).toUInt32 ≠ src.election.height ∨
      11 ≤ bytes.length ∧ EtherAddr.ofBytes (slice bytes 5 6) ≠ src.election.masterAddr ∨
      15 ≤ bytes.length ∧ ofLe32 (slice bytes 11 4) ≠ src.election.masterMetric)

theorem writtenElection_eq_iff (height masterMetric : UInt32) (masterAddr : EtherAddr) :
    { src with election :=
        { src.election with height := height, masterAddr := masterAddr,
                            masterMetric := masterMetric } } = src ↔
      height = src.election.height ∧ masterAddr = src.election.masterAddr ∧
        masterMetric = src.election.masterMetric := by
  constructor
  · intro same
    have fields := congrArg Peer.election same
    exact ⟨congrArg ElectionState.height fields, congrArg ElectionState.masterAddr fields,
      congrArg ElectionState.masterMetric fields⟩
  · rintro ⟨rfl, rfl, rfl⟩
    rfl

theorem awdlHandleElectionParamsTlv_clean_iff :
    Returns (awdlHandleElectionParamsTlv src val state) fun result =>
      (Clean src state result ↔ ¬ TornElection src val.bytes) := by
  unfold awdlHandleElectionParamsTlv TornElection
  simp (disch := decide) only [readU8_eq, readLe32_eq, readEtherAddr_eq, except_ok_bind,
    Int.reduceToNat, except_pure]
  by_cases supports : src.supportsV2 = true
  · rw [if_pos supports]
    exact .ok _ (iff_of_true (Clean.same src state _) (by simp [supports]))
  rw [if_neg supports]
  -- every missing field is an exit of its own, behind the fields that were written
  by_cases height : 4 ≤ val.bytes.length
  swap
  · rw [peek_outside 1 _ _ 3 (by omega)]
    exact .ok _ (iff_of_true (Clean.same src state _) (by omega))
  rw [peek_inside 1 _ _ 3 (by omega), byteAt_slice _ _ _ _ Nat.zero_lt_one]
  dsimp only
  by_cases master : 11 ≤ val.bytes.length
  swap
  · rw [peek_outside 6 _ _ 5 (by omega)]
    refine .ok _ ?_
    have short : val.bytes.length < 19 := by omega
    have metric : ¬ 15 ≤ val.bytes.length := by omega
    rw [clean_tooShort, writtenElection_eq_iff]
    simp [supports, short, height, master, metric]
  rw [peek_inside 6 _ _ 5 (by omega)]
  dsimp only
  by_cases metric : 15 ≤ val.bytes.length
  swap
  · rw [peek_outside 4 _ _ 11 (by omega)]
    refine .ok _ ?_
    have short : val.bytes.length < 19 := by omega
    rw [clean_tooShort, writtenElection_eq_iff]
    simp [supports, short, height, master, metric]
  rw [peek_inside 4 _ _ 11 (by omega)]
  dsimp only
  by_cases long : 19 ≤ val.bytes.length
  swap
  · rw [peek_outside 4 _ _ 15 (by omega)]
    refine .ok _ ?_
    have short : val.bytes.length < 19 := by omega
    rw [clean_tooShort, writtenElection_eq_iff]
    simp [supports, short, height, master, metric]
  rw [peek_inside 4 _ _ 15 (by omega)]
  exact .ok _ (iff_of_true (Clean.accepted _ _ _ _) (by omega))

def TornElectionV2 (bytes : List UInt8) : Prop :=
  20 ≤ bytes.length ∧ bytes.length < 40 ∧
    (ofLe32 (slice bytes 16 4) ≠ src.election.height ∨
      EtherAddr.ofBytes (slice bytes 0 6) ≠ src.election.masterAddr ∨
      EtherAddr.ofBytes (slice bytes 6 6) ≠ src.election.syncAddr ∨
      ofLe32 (slice bytes 12 4) ≠ src.election.masterCounter ∨
      24 ≤ bytes.length ∧ ofLe32 (slice bytes 20 4) ≠ src.election.masterMetric ∨
      28 ≤ bytes.length ∧ ofLe32 (slice bytes 24 4) ≠ src.election.selfMetric)

theorem writtenElectionV2_eq_iff (height masterCounter masterMetric selfMetric : UInt32)
    (masterAddr syncAddr : EtherAddr) :
    { src with election :=
        { src.election with height := height, masterAddr := masterAddr, syncAddr := syncAddr,
                            masterCounter := masterCounter, masterMetric := masterMetric,
                            selfMetric := selfMetric } } = src ↔
      height = src.election.height ∧ masterAddr = src.election.masterAddr ∧
        syncAddr = src.election.syncAddr ∧ masterCounter = src.election.masterCounter ∧
        masterMetric = src.election.masterMetric ∧ selfMetric = src.election.selfMetric := by
  constructor
  · intro same
    have fields := congrArg Peer.election same
    exact ⟨congrArg ElectionState.height fields, congrArg ElectionState.masterAddr fields,
      congrArg ElectionState.syncAddr fields, congrArg ElectionState.masterCounter fields,
      congrArg ElectionState.masterMetric fields, congrArg ElectionState.selfMetric fields⟩
  · rintro ⟨rfl, rfl, rfl, rfl, rfl, rfl⟩
    rfl

theorem awdlHandleElectionParamsV2Tlv_clean_iff :
    Returns (awdlHandleElectionParamsV2Tlv src val state) fun result =>
      (Clean src state result ↔ ¬ TornElectionV2 src val.bytes) := by
  unfold awdlHandleElectionParamsV2Tlv TornElectionV2
  simp (disch := decide) only [readLe32_eq, readEtherAddr_eq, except_ok_bind, Int.reduceToNat,
    except_pure]
  by_cases height : 20 ≤ val.bytes.length
  swap
  · rw [peek_outside 4 _ _ 16 (by omega)]
    exact .ok _ (iff_of_true (Clean.same src state _) (by omega))
  -- the three fields behind the height lie in front of it
  rw [peek_inside 4 _ _ 16 (by omega), peek_inside 6 _ _ 0 (by omega),
    peek_inside 6 _ _ 6 (by omega), peek_inside 4 _ _ 12 (by omega)]
  dsimp only
  by_cases metric : 24 ≤ val.bytes.length
  swap
  · rw [peek_outside 4 _ _ 20 (by omega)]
    refine .ok _ ?_
    have short : val.bytes.length < 40 := by omega
    have self : ¬ 28 ≤ val.bytes.length := by omega
    rw [clean_tooShort, writtenElectionV2_eq_iff]
    simp [short, height, metric, self]
  rw [peek_inside 4 _ _ 20 (by omega)]
  dsimp only
  by_cases self : 28 ≤ val.bytes.length
  swap
  · rw [peek_outside 4 _ _ 24 (by omega)]
    refine .ok _ ?_
    have short : val.bytes.length < 40 := by omega
    rw [clean_tooShort, writtenElectionV2_eq_iff]
    simp [short, height, metric, self]
  rw [peek_inside 4 _ _ 24 (by omega)]
  dsimp only
  by_cases long : 40 ≤ val.bytes.length
  swap
  · rw [peek_outside 4 _ _ 36 (by omega)]
    refine .ok _ ?_
    have short : val.bytes.length < 40 := by omega
    rw [clean_tooShort, writtenElectionV2_eq_iff]
    simp [short, height, metric, self]
  rw [peek_inside 4 _ _ 36 (by omega)]
  exact .ok _ (iff_of_true (Clean.accepted _ _ _ _) (by omega))

def dataPathHas (flags flag : UInt16) : Bool := flags &&& flag != 0

def fieldEnd (flags flag : UInt16) (offset size : Nat) : Nat :=
  offset + if dataPathHas flags flag then size else 0

def countryEnd (flags : UInt16) : Nat := fieldEnd flags awdlDataPathFlagCountryCode 2 3

def mapEnd (flags : UInt16) : Nat :=
  fieldEnd flags awdlDataPathFlagSocialChannelMap (countryEnd flags) 2

def bssidEnd (flags : UInt16) : Nat := fieldEnd flags awdlDataPathFlagInfraInfo (mapEnd flags) 6

def infoEnd (flags : UInt16) : Nat := fieldEnd flags awdlDataPathFlagInfraInfo (bssidEnd flags) 2

def infraEnd (flags : UInt16) : Nat := fieldEnd flags awdlDataPathFlagInfraAddress (infoEnd flags) 6

def dataPathEnd (flags : UInt16) : Nat :=
  fieldEnd flags awdlDataPathFlagAwdlAddress (infraEnd flags) 6

/-- A data path state TLV that lacks an announced field, behind one that is new to the entry. -/
def TornDataPath (bytes : List UInt8) : Prop :=
  let flags := ofLe16 (slice bytes 0 2)
  2 ≤ bytes.length ∧ bytes.length < dataPathEnd flags ∧
    (dataPathHas flags awdlDataPathFlagCountryCode = true ∧ countryEnd flags ≤ bytes.length ∧
        slice bytes 2 3 ≠ src.countryCode.toList ∨
      dataPathHas flags awdlDataPathFlagInfraAddress = true ∧ infraEnd flags ≤ bytes.length ∧
        EtherAddr.ofBytes (slice bytes (infoEnd flags) 6) ≠ src.infraAddr)

theorem fieldEnd_bounds (flags flag : UInt16) (offset size : Nat) :
    offset ≤ fieldEnd flags flag offset size ∧ fieldEnd flags flag offset size ≤ offset + size := by
  unfold fieldEnd
  split <;> omega

theorem skipIf_fieldEnd (flags flag : UInt16) (offset size : Nat) :
    skipIf (dataPathHas flags flag) offset size = fieldEnd flags flag offset size := by
  unfold skipIf fieldEnd
  cases dataPathHas flags flag <;> rfl

/-- The running offset of the source is the end of the last field. -/
theorem dataPath_skips (flags : UInt16) :
    skipIf (dataPathHas flags awdlDataPathFlagCountryCode) 2 3 = countryEnd flags ∧
      skipIf (dataPathHas flags awdlDataPathFlagSocialChannelMap) (countryEnd flags) 2 =
        mapEnd flags ∧
      skipIf (dataPathHas flags awdlDataPathFlagInfraInfo) (mapEnd flags) 6 = bssidEnd flags ∧
      skipIf (dataPathHas flags awdlDataPathFlagInfraInfo) (bssidEnd flags) 2 = infoEnd flags ∧
      skipIf (dataPathHas flags awdlDataPathFlagInfraAddress) (infoEnd flags) 6 =
        infraEnd flags := by
  refine ⟨?_, ?_, ?_, ?_, ?_⟩
  · exact skipIf_fieldEnd flags _ 2 3
  · exact skipIf_fieldEnd flags _ _ 2
  · exact skipIf_fieldEnd flags _ _ 6
  · exact skipIf_fieldEnd flags _ _ 2
  · exact skipIf_fieldEnd flags _ _ 6

theorem dataPath_bounds (flags : UInt16) :
    (2 ≤ countryEnd flags ∧ countryEnd flags ≤ 5) ∧
      (countryEnd flags ≤ mapEnd flags ∧ mapEnd flags ≤ countryEnd flags + 2) ∧
      (mapEnd flags ≤ bssidEnd flags ∧ bssidEnd flags ≤ mapEnd flags + 6) ∧
      (bssidEnd flags ≤ infoEnd flags ∧ infoEnd flags ≤ bssidEnd flags + 2) ∧
      (infoEnd flags ≤ infraEnd flags ∧ infraEnd flags ≤ infoEnd flags + 6) ∧
      infraEnd flags ≤ dataPathEnd flags ∧ dataPathEnd flags ≤ infraEnd flags + 6 := by
  refine ⟨?_, ?_, ?_, ?_, ?_, ?_⟩
  · exact fieldEnd_bounds flags _ 2 3
  · exact fieldEnd_bounds flags _ _ 2
  · exact fieldEnd_bounds flags _ _ 6
  · exact fieldEnd_bounds flags _ _ 2
  · exact fieldEnd_bounds flags _ _ 6
  · exact fieldEnd_bounds flags _ _ 6

/-- A field that is only skipped can be missing, and does nothing else. -/
theorem readNull_field (flags flag : UInt16) (width offset : Nat) (small : offset + width < 2 ^ 31)
    (long : offset ≤ val.bytes.length) :
    let read := readIf (dataPathHas flags flag) (return readNull width val offset) ()
    (read = .ok none ∧ val.bytes.length < fieldEnd flags flag offset width) ∨
      (read = .ok (some ()) ∧ fieldEnd flags flag offset width ≤ val.bytes.length) := by
  have null := readNull_eq val offset (Int.natCast_nonneg offset) width (by omega)
  rw [Int.toNat_natCast] at null
  dsimp only
  unfold fieldEnd
  cases dataPathHas flags flag with
  | false => exact .inr ⟨rfl, long⟩
  | true =>
      simp only [readIf, ↓reduceIte, null]
      by_cases room : offset + width ≤ val.bytes.length
      · rw [if_pos room]
        exact .inr ⟨rfl, room⟩
      · rw [if_neg room]
        exact .inl ⟨rfl, by omega⟩

theorem writtenDataPath_eq_iff (countryCode : Fixed UInt8 3) (infraAddr : EtherAddr) :
    { src with countryCode := countryCode, infraAddr := infraAddr } = src ↔
      countryCode = src.countryCode ∧ infraAddr = src.infraAddr := by
  constructor
  · intro same
    exact ⟨congrArg Peer.countryCode same, congrArg Peer.infraAddr same⟩
  · rintro ⟨rfl, rfl⟩
    rfl

theorem readCountry (flags : UInt16) (long : 2 ≤ val.bytes.length) :
    let read := readIf (dataPathHas flags awdlDataPathFlagCountryCode)
      (readBytesCopy val 2 src.countryCode 3) src.countryCode
    (read = .ok none ∧ val.bytes.length < countryEnd flags) ∨
      ∃ country, read = .ok (some country) ∧ countryEnd flags ≤ val.bytes.length ∧
        (country = src.countryCode ↔ ¬ (dataPathHas flags awdlDataPathFlagCountryCode = true ∧
          slice val.bytes 2 3 ≠ src.countryCode.toList)) := by
  have copy : readBytesCopy val 2 src.countryCode 3 =
      .ok (if 5 ≤ val.bytes.length then src.countryCode.store 0 (slice val.bytes 2 3) else none) :=
    readBytesCopy_eq val 2 (by decide) src.countryCode 3 (by decide) (by decide)
  dsimp only
  unfold countryEnd fieldEnd
  cases dataPathHas flags awdlDataPathFlagCountryCode with
  | false => exact .inr ⟨src.countryCode, rfl, long, by simp⟩
  | true =>
      simp only [readIf, ↓reduceIte, copy]
      by_cases room : 5 ≤ val.bytes.length
      · have size := slice_length val.bytes 2 3 (by omega)
        rw [if_pos room]
        refine .inr ⟨⟨slice val.bytes 2 3, size⟩, congrArg _ (Fixed.store_whole _ _ size), room, ?_⟩
        simp only [true_and, not_not]
        exact ⟨fun same => congrArg Fixed.toList same, fun same => Fixed.ext_list same⟩
      · rw [if_neg room]
        exact .inl ⟨rfl, by omega⟩

theorem readInfra (flags : UInt16) (small : infoEnd flags ≤ 15)
    (long : infoEnd flags ≤ val.bytes.length) :
    let read := readIf (dataPathHas flags awdlDataPathFlagInfraAddress)
      (readEtherAddr val (infoEnd flags)) src.infraAddr
    (read = .ok none ∧ val.bytes.length < infraEnd flags) ∨
      ∃ infra, read = .ok (some infra) ∧ infraEnd flags ≤ val.bytes.length ∧
        (infra = src.infraAddr ↔ ¬ (dataPathHas flags awdlDataPathFlagInfraAddress = true ∧
          EtherAddr.ofBytes (slice val.bytes (infoEnd flags) 6) ≠ src.infraAddr)) := by
  have copy := readEtherAddr_eq val (infoEnd flags) (Int.natCast_nonneg _) (by omega)
  rw [Int.toNat_natCast] at copy
  dsimp only
  unfold infraEnd fieldEnd
  cases dataPathHas flags awdlDataPathFlagInfraAddress with
  | false => exact .inr ⟨src.infraAddr, rfl, long, by simp⟩
  | true =>
      simp only [readIf, ↓reduceIte, copy]
      by_cases room : infoEnd flags + 6 ≤ val.bytes.length
      · rw [peek_inside 6 _ _ _ room]
        exact .inr ⟨_, rfl, room, by simp⟩
      · rw [peek_outside 6 _ _ _ room]
        exact .inl ⟨rfl, by omega⟩

/-- How the handler for data path states ends: with a field cut off, of which the country
code and the infrastructure address are stored as they are read, or with all of them. -/
inductive DataPathEnds (flags : UInt16) : RxResult × Peer × AwdlState → Prop where
  | first (short : val.bytes.length < countryEnd flags) : DataPathEnds flags (.tooShort, src, state)
  | country (country : Fixed UInt8 3) (room : countryEnd flags ≤ val.bytes.length)
      (fresh : country = src.countryCode ↔
        ¬ (dataPathHas flags awdlDataPathFlagCountryCode = true ∧
          slice val.bytes 2 3 ≠ src.countryCode.toList))
      (short : val.bytes.length < infraEnd flags) :
      DataPathEnds flags (.tooShort, { src with countryCode := country }, state)
  | infra (country : Fixed UInt8 3) (infra : EtherAddr) (room : infraEnd flags ≤ val.bytes.length)
      (fresh : country = src.countryCode ↔
        ¬ (dataPathHas flags awdlDataPathFlagCountryCode = true ∧
          slice val.bytes 2 3 ≠ src.countryCode.toList))
      (newer : infra = src.infraAddr ↔ ¬ (dataPathHas flags awdlDataPathFlagInfraAddress = true ∧
        EtherAddr.ofBytes (slice val.bytes (infoEnd flags) 6) ≠ src.infraAddr))
      (short : val.bytes.length < dataPathEnd flags) :
      DataPathEnds flags
        (.tooShort, { src with countryCode := country, infraAddr := infra }, state)
  | done (country : Fixed UInt8 3) (infra : EtherAddr)
      (whole : dataPathEnd flags ≤ val.bytes.length) :
      DataPathEnds flags (.ok, { src with countryCode := country, infraAddr := infra }, state)

theorem awdlHandleDataPathStateTlv_ends (two : 2 ≤ val.bytes.length) :
    Returns (awdlHandleDataPathStateTlv src val state)
      (DataPathEnds src val state (ofLe16 (slice val.bytes 0 2))) := by
  unfold awdlHandleDataPathStateTlv
  rw [readLe16_eq val 0 (by decide) (by decide), except_ok_bind, Int.toNat_zero,
    peek_inside 2 _ _ 0 (by omega)]
  dsimp only
  generalize ofLe16 (slice val.bytes 0 2) = flags
  have has : ∀ flag, (flags &&& flag != 0) = dataPathHas flags flag := fun _ => rfl
  obtain ⟨countrySkip, mapSkip, bssidSkip, infoSkip, infraSkip⟩ := dataPath_skips flags
  simp only [has, countrySkip, mapSkip, bssidSkip, infoSkip, infraSkip]
  obtain ⟨countryBounds, mapBounds, bssidBounds, infoBounds, infraBounds, -⟩ := dataPath_bounds flags
  rcases readCountry src val flags two with ⟨read, short⟩ | ⟨country, read, room, fresh⟩
  · rw [read, except_ok_bind]
    exact .ok _ (.first short)
  rw [read, except_ok_bind]
  dsimp only
  have early : val.bytes.length < infraEnd flags →
      Returns (.ok (RxResult.tooShort, { src with countryCode := country }, state))
        (DataPathEnds src val state flags) :=
    fun short => .ok _ (.country country room fresh short)
  rcases readNull_field val flags awdlDataPathFlagSocialChannelMap 2 (countryEnd flags) (by omega)
    room with ⟨read, short⟩ | ⟨read, room⟩
  · rw [read, except_ok_bind]
    exact early (Nat.lt_of_lt_of_le short (show mapEnd flags ≤ infraEnd flags by omega))
  rw [read, except_ok_bind]
  dsimp only
  rcases readNull_field val flags awdlDataPathFlagInfraInfo 6 (mapEnd flags) (by omega)
    room with ⟨read, short⟩ | ⟨read, room⟩
  · rw [read, except_ok_bind]
    exact early (Nat.lt_of_lt_of_le short (show bssidEnd flags ≤ infraEnd flags by omega))
  rw [read, except_ok_bind]
  dsimp only
  rcases readNull_field val flags awdlDataPathFlagInfraInfo 2 (bssidEnd flags) (by omega)
    room with ⟨read, short⟩ | ⟨read, room⟩
  · rw [read, except_ok_bind]
    exact early (Nat.lt_of_lt_of_le short (show infoEnd flags ≤ infraEnd flags by omega))
  rw [read, except_ok_bind]
  dsimp only
  rcases readInfra src val flags (by omega) room with ⟨read, short⟩ | ⟨infra, read, room, newer⟩
  · rw [read, except_ok_bind]
    exact early short
  rw [read, except_ok_bind]
  dsimp only
  rcases readNull_field val flags awdlDataPathFlagAwdlAddress 6 (infraEnd flags) (by omega)
    room with ⟨read, short⟩ | ⟨read, whole⟩
  · rw [read, except_ok_bind]
    exact .ok _ (.infra country infra room fresh newer short)
  · rw [read, except_ok_bind]
    exact .ok _ (.done country infra whole)

theorem awdlHandleDataPathStateTlv_short (short : ¬ 2 ≤ val.bytes.length) :
    awdlHandleDataPathStateTlv src val state = .ok (.tooShort, src, state) := by
  unfold awdlHandleDataPathStateTlv
  rw [readLe16_eq val 0 (by decide) (by decide), except_ok_bind, Int.toNat_zero,
    peek_outside 2 _ _ 0 (by omega)]
  rfl

theorem awdlHandleDataPathStateTlv_clean_iff :
    Returns (awdlHandleDataPathStateTlv src val state) fun result =>
      (Clean src state result ↔ ¬ TornDataPath src val.bytes) := by
  by_cases two : 2 ≤ val.bytes.length
  swap
  · rw [awdlHandleDataPathStateTlv_short src val state two]
    exact .ok _ (iff_of_true (Clean.same src state _) fun torn => two torn.1)
  obtain ⟨result, run, ends⟩ := awdlHandleDataPathStateTlv_ends src val state two
  refine ⟨result, run, ?_⟩
  unfold TornDataPath
  generalize ofLe16 (slice val.bytes 0 2) = flags at ends ⊢
  obtain ⟨-, mapBounds, bssidBounds, infoBounds, infraBounds, endBounds⟩ := dataPath_bounds flags
  cases ends with
  | first short =>
      refine iff_of_true (Clean.same src state _) ?_
      omega
  | country country room fresh short =>
      have missing : ¬ infraEnd flags ≤ val.bytes.length := by omega
      have cut : val.bytes.length < dataPathEnd flags := by omega
      rw [clean_tooShort, writtenDataPath_eq_iff src country src.infraAddr, fresh]
      simp only [two, cut, room, missing, true_and, false_and, and_false, or_false, and_true]
  | infra country infra room fresh newer short =>
      have named : countryEnd flags ≤ val.bytes.length := by omega
      rw [clean_tooShort, writtenDataPath_eq_iff, fresh, newer, ← not_or]
      simp only [two, short, room, named, true_and]
  | done country infra whole =>
      refine iff_of_true (Clean.accepted _ _ _ _) ?_
      omega

def Torn (type : UInt8) (bytes : List UInt8) : Prop :=
  type = TlvType.electionParameters.code ∧ TornElection src bytes ∨
    type = TlvType.electionParametersV2.code ∧ TornElectionV2 src bytes ∨
    type = TlvType.dataPathState.code ∧ TornDataPath src bytes

end Handlers

/-- Every type and every value: a refused TLV changes nothing but in these cases. -/
theorem rejected_tlv_clean_iff (long : LongWidth) (list : ChanSeq) (src : Peer) (type : UInt8)
    (val : Buf) (state : AwdlState) (tsft : UInt64) :
    ∃ result src' state', awdlHandleTlv long list src type val state tsft =
        .ok (result, src', state') ∧
      ((result.code < 0 → src' = src ∧ state' = state) ↔ ¬ Torn src type val.bytes) := by
  -- At one type `Torn` is the condition of one handler.
  have settle : ∀ (handled : Handled) (torn : Prop), (Torn src type val.bytes ↔ torn) →
      Returns handled (fun result => (Clean src state result ↔ ¬ torn)) →
      ∃ result src' state', handled = .ok (result, src', state') ∧
        ((result.code < 0 → src' = src ∧ state' = state) ↔ ¬ Torn src type val.bytes) := by
    rintro handled torn same ⟨⟨result, peer, after⟩, run, clean⟩
    exact ⟨result, peer, after, run, by rw [same]; exact clean⟩
  -- Handlers without such a condition are always clean.
  have never : ∀ handled : Handled, Returns handled (Clean src state) →
      Returns handled fun result => (Clean src state result ↔ ¬ False) := by
    rintro handled ⟨result, run, clean⟩
    exact ⟨result, run, iff_of_true clean id⟩
  unfold awdlHandleTlv
  split
  case isTrue sync =>
    exact settle _ False (by simp [Torn, sync, TlvType.code])
      (never _ (awdlHandleSyncParamsTlv_clean src val state long tsft))
  split
  case isTrue chanseq =>
    exact settle _ False (by simp [Torn, chanseq, TlvType.code])
      (never _ (awdlHandleChanseqTlv_clean src val state list))
  split
  case isTrue election =>
    exact settle _ _ (by simp [Torn, election, TlvType.code])
      (awdlHandleElectionParamsTlv_clean_iff src val state)
  case isFalse notElection =>
  split
  case isTrue electionV2 =>
    exact settle _ _ (by simp [Torn, electionV2, TlvType.code])
      (awdlHandleElectionParamsV2Tlv_clean_iff src val state)
  case isFalse notElectionV2 =>
  split
  case isTrue arpa =>
    exact settle _ False (by simp [Torn, arpa, TlvType.code])
      (never _ (awdlHandleArpaTlv_clean src val state))
  split
  case isTrue dataPath =>
    exact settle _ _ (by simp [Torn, dataPath, TlvType.code])
      (awdlHandleDataPathStateTlv_clean_iff src val state)
  case isFalse notDataPath =>
  have whole : Torn src type val.bytes ↔ False := by
    simp [Torn, notElection, notElectionV2, notDataPath]
  split
  · exact settle _ False whole (never _ (awdlHandleVersionTlv_clean src val state))
  · exact settle _ False whole (never _ (.ok _ (Clean.same src state _)))

def heardPeer : Peer := awdlPeerNew zeroPeer ⟨2, 0, 0, 0, 0, 2⟩

def hearingState : AwdlState :=
  awdlInitState (Fixed.replicate _ 0) [] ⟨2, 0, 0, 0, 0, 1⟩ chanNull 0

def electionStub : Buf := ⟨[0, 0, 0, 7], by decide⟩

theorem rejected_tlv_changes_height : ∃ src' state',
    awdlHandleTlv .bits64 (awdlChanseqInitStatic chanNull) heardPeer
        TlvType.electionParameters.code electionStub hearingState 0 =
        .ok (.tooShort, src', state') ∧
      RxResult.tooShort.code < 0 ∧ src'.election.height = 7 ∧ src' ≠ heardPeer := by
  refine ⟨_, _, rfl, by decide, rfl, ?_⟩
  intro same
  have height := congrArg (fun peer => peer.election.height) same
  exact absurd height (by decide)

end Owl.RxReject
