import Owl.BoundedText
import Owl.PeersRefine
import Owl.Tx

/-!
`awdl_peers_print` with the two printers below it. Pointers into the memory
around the buffer are positions in a list of bytes; the size that a printer gets
is an `int`, so the difference of two pointers is converted to it. `snprintf` is
that of the C library: it writes at most `size - 1` bytes and a NUL, nothing for
size 0, and returns the length of the whole text, or -1 when that is no `int`.
The texts below are what the format strings make of their arguments;
`ether_ntoa` prints octets without leading zeros.
-/

namespace Owl.Print

open Bytes Ether Election Hashmap Peers PeersRefine Wire State Tx BoundedText

def ascii (text : String) : List UInt8 := text.toList.map fun char => UInt8.ofNat char.toNat

def asInt (value : Int) : Int := (BitVec.ofInt 32 value).toInt

def digits (base number : Nat) : List UInt8 :=
  (Nat.toDigits base number).map fun char => UInt8.ofNat char.toNat

def etherNtoa (addr : EtherAddr) : List UInt8 :=
  (ascii ":").intercalate (addr.bytes.map fun octet => digits 16 octet.toNat)

def snprintf (memory : List UInt8) (str : Int) (size : Nat) (text : List UInt8) :
    Except Fault (Int × List UInt8) :=
  let result : Int := if text.length < 2 ^ 31 then text.length else -1
  if size = 0 then .ok (result, memory)
  else if str < 0 then .error .write
  else
    match overwrite memory str.toNat (text.take (size - 1) ++ [0]) with
    | some after => .ok (result, after)
    | none => .error .write

/-- `cur += snprintf(cur, cur < end ? end - cur : 0, ...)`. -/
def advance (stop : Int) (text : List UInt8) (cur : Int) (memory : List UInt8) :
    Except Fault (Int × List UInt8) := do
  let (count, memory) ← snprintf memory cur (if cur < stop then (stop - cur).toNat else 0) text
  return (cur + count, memory)

def dashes (stop : Int) : Nat → Int → List UInt8 → Except Fault (Int × List UInt8)
  | 0, cur, memory => return (cur, memory)
  | count + 1, cur, memory => do
      let (cur, memory) ← advance stop (ascii "-") cur memory
      dashes stop count cur memory

def printSync (state : ElectionState) (stop cur : Int) (memory : List UInt8) :
    Except Fault (Int × List UInt8) :=
  if state.height > 0 then advance stop (ascii " -> " ++ etherNtoa state.syncAddr) cur memory
  else return (cur, memory)

def printHops (state : ElectionState) (stop cur : Int) (memory : List UInt8) :
    Except Fault (Int × List UInt8) :=
  if state.height > 1 then do
    let (cur, memory) ← advance stop (ascii " ") cur memory
    let (cur, memory) ← dashes stop (state.height.toNat - 1) cur memory
    advance stop (ascii "> " ++ etherNtoa state.masterAddr) cur memory
  else return (cur, memory)

def awdlElectionTreePrint (state : ElectionState) (memory : List UInt8) (str len : Int) :
    Except Fault (Int × List UInt8) := do
  let stop := str + len
  let (cur, memory) ← advance stop (etherNtoa state.selfAddr) str memory
  let (cur, memory) ← printSync state stop cur memory
  let (cur, memory) ← printHops state stop cur memory
  let (cur, memory) ← advance stop (ascii " (met " ++ digits 10 state.masterMetric.toNat ++
    ascii ", ctr " ++ digits 10 state.masterCounter.toNat ++ ascii ")") cur memory
  return (asInt (cur - str), memory)

def printName (peer : Peer) (stop str : Int) (memory : List UInt8) :
    Except Fault (Int × List UInt8) := do
  let length ← strlen peer.name
  if length ≠ 0 then advance stop (cString peer.name.toList ++ ascii ": ") str memory
  else advance stop (ascii "<UNNAMED>: ") str memory

def awdlPeerPrint (peer : Peer) (memory : List UInt8) (str len : Int) :
    Except Fault (Int × List UInt8) := do
  let stop := str + len
  let (cur, memory) ← printName peer stop str memory
  let (count, memory) ← awdlElectionTreePrint peer.election memory cur (asInt (stop - cur))
  return (asInt (cur + count - str), memory)

def peersPrintLoop (stop : Int) : List Peer → Int → List UInt8 → Except Fault (Int × List UInt8)
  | [], cur, memory => return (cur, memory)
  | peer :: rest, cur, memory => do
      let (count, memory) ← awdlPeerPrint peer memory cur (asInt (stop - cur))
      let (cur, memory) ← advance stop (ascii "\n") (cur + count) memory
      peersPrintLoop stop rest cur memory

def awdlPeersPrint (peers : PeerMap) (memory : List UInt8) (str len : Int) :
    Except Fault (Int × List UInt8) := do
  let (cur, memory) ← peersPrintLoop (str + len) (awdlPeersIterate peers) str memory
  return (asInt (cur - str), memory)

/-! The texts without a bound. -/

def syncText (state : ElectionState) : List UInt8 :=
  if state.height > 0 then ascii " -> " ++ etherNtoa state.syncAddr else []

def hopsText (state : ElectionState) : List UInt8 :=
  if state.height > 1 then
    ascii " " ++ List.replicate (state.height.toNat - 1) 0x2d ++
      (ascii "> " ++ etherNtoa state.masterAddr)
  else []

def metricText (state : ElectionState) : List UInt8 :=
  ascii " (met " ++ digits 10 state.masterMetric.toNat ++ ascii ", ctr " ++
    digits 10 state.masterCounter.toNat ++ ascii ")"

def treeText (state : ElectionState) : List UInt8 :=
  etherNtoa state.selfAddr ++ syncText state ++ hopsText state ++ metricText state

def nameText (peer : Peer) : List UInt8 :=
  if cString peer.name.toList = [] then ascii "<UNNAMED>: "
  else cString peer.name.toList ++ ascii ": "

def peerText (peer : Peer) : List UInt8 := nameText peer ++ treeText peer.election

def peersText (peers : List Peer) : List UInt8 :=
  peers.flatMap fun peer => peerText peer ++ ascii "\n"

theorem asInt_small (value : Int) (lower : -2 ^ 31 ≤ value) (upper : value < 2 ^ 31) :
    asInt value = value := by
  rw [asInt, BitVec.toInt_ofInt, Int.bmod_def]
  omega

theorem etherNtoa_ne_nil (addr : EtherAddr) : etherNtoa addr ≠ [] := by
  simp [etherNtoa, EtherAddr.bytes, ascii, List.intercalate, List.intersperse]

section Cursor

variable {memory : List UInt8} {start len : Nat} (room : start + len ≤ memory.length)
  (positive : 1 ≤ len)
include room positive

/-- One `snprintf` of the cursor, wherever the text so far ends. -/
theorem advance_shown (done text : List UInt8) (some_text : text ≠ [])
    (small : (done ++ text).length < 2 ^ 31) :
    advance (start + len) text (start + done.length) (shown 0 memory start len done) =
      .ok (start + (done ++ text).length, shown 0 memory start len (done ++ text)) := by
  rw [List.length_append] at small
  have whole : (if text.length < 2 ^ 31 then (text.length : Int) else -1) = text.length :=
    if_pos (by omega)
  have moved : (start + done.length + text.length : Int) = start + (done ++ text).length := by
    rw [List.length_append]
    omega
  unfold advance snprintf
  rw [whole]
  by_cases inside : done.length < len
  · have before : (start + done.length : Int) < start + len := by omega
    have left : (start + len - (start + done.length) : Int).toNat = len - done.length := by omega
    have position : (start + done.length : Int).toNat = start + done.length := by omega
    have here : ¬ (start + done.length : Int) < 0 := by omega
    have size : len - done.length ≠ 0 := by omega
    simp only [before, ↓reduceIte, left, size, here, position,
      overwrite_shown 0 room inside some_text, except_ok_bind, moved]
    rfl
  · have beyond : ¬ (start + done.length : Int) < start + len := by omega
    simp only [beyond, ↓reduceIte, except_ok_bind, moved,
      shown_beyond 0 positive (not_lt.mp inside) text]
    rfl

theorem dashes_shown (count : Nat) (done : List UInt8)
    (small : (done ++ List.replicate count 0x2d).length < 2 ^ 31) :
    dashes (start + len) count (start + done.length) (shown 0 memory start len done) =
      .ok (start + (done ++ List.replicate count 0x2d).length,
        shown 0 memory start len (done ++ List.replicate count 0x2d)) := by
  induction count generalizing done with
  | zero =>
      rw [List.replicate_zero, List.append_nil]
      rfl
  | succ count ih =>
      have dash : ascii "-" = [0x2d] := rfl
      have regroup : done ++ List.replicate (count + 1) 0x2d =
          (done ++ [0x2d]) ++ List.replicate count 0x2d := by
        rw [List.append_assoc, List.singleton_append, List.replicate_succ]
      rw [regroup] at small ⊢
      rw [dashes, dash, advance_shown room positive done [0x2d] (by simp) (by simp at small ⊢; omega),
        except_ok_bind]
      exact ih (done ++ [0x2d]) small

omit room positive in
/-- The beginning of a text that is short enough is so too. -/
theorem append_small {before after : List UInt8} (small : (before ++ after).length < 2 ^ 31) :
    before.length < 2 ^ 31 := by
  rw [List.length_append] at small
  omega

theorem printSync_shown (state : ElectionState) (done : List UInt8)
    (small : (done ++ syncText state).length < 2 ^ 31) :
    printSync state (start + len) (start + done.length) (shown 0 memory start len done) =
      .ok (start + (done ++ syncText state).length,
        shown 0 memory start len (done ++ syncText state)) := by
  unfold printSync
  unfold syncText at small ⊢
  split
  · rw [if_pos (by assumption)] at small
    exact advance_shown room positive done _ (by simp [ascii]) small
  · rw [List.append_nil]
    rfl

theorem printHops_shown (state : ElectionState) (done : List UInt8)
    (small : (done ++ hopsText state).length < 2 ^ 31) :
    printHops state (start + len) (start + done.length) (shown 0 memory start len done) =
      .ok (start + (done ++ hopsText state).length,
        shown 0 memory start len (done ++ hopsText state)) := by
  unfold printHops
  unfold hopsText at small ⊢
  split
  case isTrue far =>
    rw [if_pos far, ← List.append_assoc, ← List.append_assoc done] at small
    rw [← List.append_assoc done, ← List.append_assoc done,
      advance_shown room positive done (ascii " ") (by simp [ascii])
        (append_small (append_small small)), except_ok_bind]
    dsimp only
    rw [dashes_shown room positive _ (done ++ ascii " ") (append_small small), except_ok_bind]
    exact advance_shown room positive _ (ascii "> " ++ etherNtoa state.masterAddr)
      (by simp [ascii]) small
  case isFalse =>
    rw [List.append_nil]
    rfl

theorem awdlElectionTreePrint_shown (state : ElectionState) (done : List UInt8)
    (small : (done ++ treeText state).length < 2 ^ 31) :
    awdlElectionTreePrint state (shown 0 memory start len done) (start + done.length)
        (len - done.length) =
      .ok ((treeText state).length, shown 0 memory start len (done ++ treeText state)) := by
  have stop : (start + done.length + (len - done.length) : Int) = start + len := by omega
  have result : asInt (start + (done ++ treeText state).length - (start + done.length)) =
      (treeText state).length := by
    rw [List.length_append] at small ⊢
    rw [asInt_small] <;> omega
  have some_metric : metricText state ≠ [] := by simp [metricText, ascii]
  have pieces : done ++ treeText state =
      done ++ etherNtoa state.selfAddr ++ syncText state ++ hopsText state ++ metricText state := by
    simp only [treeText, List.append_assoc]
  rw [pieces] at small result ⊢
  unfold awdlElectionTreePrint
  simp only [stop]
  rw [advance_shown room positive done _ (etherNtoa_ne_nil _)
    (append_small (append_small (append_small small))), except_ok_bind]
  dsimp only
  rw [printSync_shown room positive state _ (append_small (append_small small)), except_ok_bind]
  dsimp only
  rw [printHops_shown room positive state _ (append_small small), except_ok_bind]
  dsimp only
  rw [show ascii " (met " ++ digits 10 state.masterMetric.toNat ++ ascii ", ctr " ++
      digits 10 state.masterCounter.toNat ++ ascii ")" = metricText state from rfl,
    advance_shown room positive _ _ some_metric small, except_ok_bind]
  dsimp only
  rw [result]
  rfl

theorem printName_shown (peer : Peer) (named : 0 ∈ peer.name.toList) (done : List UInt8)
    (small : (done ++ nameText peer).length < 2 ^ 31) :
    printName peer (start + len) (start + done.length) (shown 0 memory start len done) =
      .ok (start + (done ++ nameText peer).length,
        shown 0 memory start len (done ++ nameText peer)) := by
  have length : strlen peer.name = .ok (cString peer.name.toList).length := by
    rw [strlen, if_pos named]
    rfl
  unfold printName
  unfold nameText at small ⊢
  rw [length, except_ok_bind]
  by_cases empty : cString peer.name.toList = []
  · rw [if_pos empty] at small ⊢
    rw [if_neg (by simp [empty])]
    exact advance_shown room positive done _ (by simp [ascii]) small
  · rw [if_neg empty] at small ⊢
    rw [if_pos (by simpa using empty)]
    exact advance_shown room positive done _ (by simp [empty]) small

variable (small_len : len < 2 ^ 31)
include small_len

theorem awdlPeerPrint_shown (peer : Peer) (named : 0 ∈ peer.name.toList) (done : List UInt8)
    (small : (done ++ peerText peer).length < 2 ^ 31) :
    awdlPeerPrint peer (shown 0 memory start len done) (start + done.length) (len - done.length) =
      .ok ((peerText peer).length, shown 0 memory start len (done ++ peerText peer)) := by
  have stop : (start + done.length + (len - done.length) : Int) = start + len := by omega
  have pieces : done ++ peerText peer = done ++ nameText peer ++ treeText peer.election := by
    rw [peerText, List.append_assoc]
  have whole := small
  rw [pieces] at small
  have first := append_small small
  -- The size for the inner printer may be negative, but it is an `int`.
  have left : asInt (start + len - (start + (done ++ nameText peer).length)) =
      len - (done ++ nameText peer).length := by
    rw [asInt_small] <;> omega
  have result : asInt (start + (done ++ nameText peer).length + (treeText peer.election).length -
      (start + done.length)) = (peerText peer).length := by
    rw [peerText, List.length_append, List.length_append]
    rw [peerText, List.length_append, List.length_append] at whole
    rw [asInt_small] <;> omega
  unfold awdlPeerPrint
  simp only [stop]
  rw [printName_shown room positive peer named done first, except_ok_bind]
  dsimp only
  rw [left, awdlElectionTreePrint_shown room positive peer.election _ small, except_ok_bind]
  dsimp only
  rw [result, pieces]
  rfl

theorem peersPrintLoop_shown (peers : List Peer) (named : ∀ peer ∈ peers, 0 ∈ peer.name.toList)
    (done : List UInt8) (small : (done ++ peersText peers).length < 2 ^ 31) :
    peersPrintLoop (start + len) peers (start + done.length) (shown 0 memory start len done) =
      .ok (start + (done ++ peersText peers).length,
        shown 0 memory start len (done ++ peersText peers)) := by
  induction peers generalizing done with
  | nil =>
      simp only [peersText, List.flatMap_nil, List.append_nil]
      rfl
  | cons peer rest ih =>
      have pieces : done ++ peersText (peer :: rest) =
          done ++ peerText peer ++ ascii "\n" ++ peersText rest := by
        simp only [peersText, List.flatMap_cons, List.append_assoc]
      rw [pieces] at small ⊢
      have line := append_small small
      have begun : done.length < 2 ^ 31 := append_small (append_small line)
      have left : asInt (start + len - (start + done.length)) = len - done.length := by
        rw [asInt_small] <;> omega
      have moved : (start + done.length + (peerText peer).length : Int) =
          start + (done ++ peerText peer).length := by
        rw [List.length_append]
        omega
      rw [peersPrintLoop, left, awdlPeerPrint_shown room positive small_len peer
        (named peer List.mem_cons_self) done (append_small line), except_ok_bind]
      dsimp only
      rw [moved, advance_shown room positive _ (ascii "\n") (by simp [ascii]) line, except_ok_bind]
      exact ih (fun other member => named other (List.mem_cons_of_mem _ member)) _ small

theorem awdlPeersPrint_shown (peers : PeerMap)
    (named : ∀ peer ∈ awdlPeersIterate peers, 0 ∈ peer.name.toList)
    (small : (peersText (awdlPeersIterate peers)).length < 2 ^ 31) :
    awdlPeersPrint peers memory start len =
      .ok ((peersText (awdlPeersIterate peers)).length,
        shown 0 memory start len (peersText (awdlPeersIterate peers))) := by
  have loop := peersPrintLoop_shown room positive small_len (awdlPeersIterate peers) named [] small
  have fresh : shown 0 memory start len [] = memory := if_pos rfl
  rw [fresh, List.length_nil, Nat.cast_zero, Int.add_zero, List.nil_append] at loop
  have result : asInt (start + (peersText (awdlPeersIterate peers)).length - start) =
      (peersText (awdlPeersIterate peers)).length := by
    rw [asInt_small] <;> omega
  rw [awdlPeersPrint, loop, except_ok_bind]
  dsimp only
  rw [result]
  rfl

end Cursor

theorem peersText_eq_nil (peers : List Peer) : peersText peers = [] ↔ peers = [] := by
  cases peers with
  | nil => simp [peersText]
  | cons peer rest => simp [peersText, ascii]

/-- Printing into a buffer of `len` bytes returns the length of the whole text, leaves as much
of it as fits in front of a NUL and touches nothing else; of an empty table it writes
nothing. -/
theorem awdlPeersPrint_truncates (peers : PeerMap)
    (named : ∀ peer ∈ awdlPeersIterate peers, 0 ∈ peer.name.toList)
    (small : (peersText (awdlPeersIterate peers)).length < 2 ^ 31) (memory : List UInt8)
    (start len : Nat) (positive : 1 ≤ len) (int : len < 2 ^ 31)
    (room : start + len ≤ memory.length) :
    ∃ after, awdlPeersPrint peers memory start len =
        .ok ((peersText (awdlPeersIterate peers)).length, after) ∧
      (awdlPeersIterate peers ≠ [] → after = patch memory start
        ((peersText (awdlPeersIterate peers)).take
          (min (peersText (awdlPeersIterate peers)).length (len - 1)) ++ [0])) ∧
      (awdlPeersIterate peers = [] → after = memory) ∧
      after.take start = memory.take start ∧
      after.drop (start + len) = memory.drop (start + len) := by
  obtain ⟨front, back⟩ := shown_outside 0 room positive (peersText (awdlPeersIterate peers))
  refine ⟨_, awdlPeersPrint_shown room positive int peers named small, ?_, ?_, front, back⟩
  · intro some_peers
    have some_text := mt (peersText_eq_nil _).mp some_peers
    have cut : (peersText (awdlPeersIterate peers)).take
        (min (peersText (awdlPeersIterate peers)).length (len - 1)) =
          (peersText (awdlPeersIterate peers)).take (len - 1) := by
      rw [Nat.min_comm, ← List.take_eq_take_min]
    rw [shown_of_ne_nil 0 some_text, cut, patch, List.length_append, List.length_singleton,
      Nat.add_assoc]
  · intro none
    rw [none]
    rfl

def testTable : PeerMap :=
  ⟨[some (⟨0, 0, 0, 0, 0, 0⟩, awdlPeerNew zeroPeer ⟨0, 0, 0, 0, 0, 0⟩), none,
    some (⟨1, 1, 1, 1, 1, 1⟩, awdlPeerNew zeroPeer ⟨1, 1, 1, 1, 1, 1⟩)], 2⟩

theorem awdlPeersPrint_overflow : ∃ after,
    awdlPeersPrint testTable (List.replicate 40 0xff) (4 : Nat) (30 : Nat) = .ok (78, after) ∧
      after = List.replicate 4 0xff ++ (ascii "<UNNAMED>: 0:0:0:0:0:0 (met 6" ++ [0]) ++
        List.replicate 6 0xff := by
  have peers : awdlPeersIterate testTable = [awdlPeerNew zeroPeer ⟨0, 0, 0, 0, 0, 0⟩,
      awdlPeerNew zeroPeer ⟨1, 1, 1, 1, 1, 1⟩] := by
    decide +kernel
  have length : (peersText (awdlPeersIterate testTable)).length = 78 := by decide +kernel
  obtain ⟨after, printed, content, -⟩ := awdlPeersPrint_truncates testTable
    (by rw [peers]; decide +kernel) (by rw [length]; decide) (List.replicate 40 0xff) 4 30 (by decide)
    (by decide) (by decide)
  rw [length] at printed
  refine ⟨after, printed, (content (by simp [peers])).trans ?_⟩
  decide +kernel

end Owl.Print
