import Owl.Channel
import Owl.Election
import Owl.Hashmap

/-!
`peers.c`: the peer table. The map stores a peer under the pointer to its own
address field, so here the key is the address and the data is the peer record
itself; a store through a peer pointer is `storeData`. A new peer keeps what
`malloc` left in the fields that `awdl_peer_new` does not set. Callbacks are
functions that name the event they cause; NULL is `none`. Logging is left out.
-/

namespace Owl.Peers

open Bytes Ether Channel Election Hashmap

def hostNameLengthMax : Nat := 64

inductive PeersStatus where
  | update
  | ok
  | missing
  | internal
  deriving DecidableEq, Repr

def PeersStatus.code : PeersStatus → Int
  | .update => 1
  | .ok => 0
  | .missing => -1
  | .internal => -2

structure Peer where
  addr : EtherAddr
  lastUpdate : UInt64
  election : ElectionState
  sequence : ChanSeq
  syncOffset : UInt64
  name : Fixed UInt8 (hostNameLengthMax + 1)
  countryCode : Fixed UInt8 3
  infraAddr : EtherAddr
  version : UInt8
  devclass : UInt8
  supportsV2 : Bool
  sentMif : Bool
  isValid : Bool
  deriving DecidableEq

abbrev PeerMap := HashmapMap EtherAddr Peer

def awdlPeersInit : PeerMap := hashmapNew

def awdlPeersLength (peers : PeerMap) : Int := hashmapLength peers

def awdlPeerIsValid (peer : Peer) : Bool :=
  peer.sentMif && peer.devclass != 0 && peer.version != 0

/-- `strcpy(name, "")`: only the first byte is written. -/
def emptyName (old : Fixed UInt8 (hostNameLengthMax + 1)) :
    Fixed UInt8 (hostNameLengthMax + 1) :=
  ⟨0 :: old.toList.drop 1, by
    have size := old.size
    simp only [List.length_cons, List.length_drop, size]
    rfl⟩

/-- `awdl_peer_new` on fresh memory; the name behind its first byte and the
infrastructure address are not initialised. -/
def awdlPeerNew (memory : Peer) (addr : EtherAddr) : Peer where
  addr := addr
  lastUpdate := 0
  election := awdlElectionStateInit addr
  sequence := awdlChanseqInitStatic chanNull
  syncOffset := 0
  name := emptyName memory.name
  countryCode := ⟨[0x4e, 0x41, 0], rfl⟩
  infraAddr := memory.infraAddr
  version := 0
  devclass := 0
  supportsV2 := false
  sentMif := false
  isValid := false

def zeroPeer : Peer where
  addr := ⟨0, 0, 0, 0, 0, 0⟩
  lastUpdate := 0
  election := ⟨⟨0, 0, 0, 0, 0, 0⟩, ⟨0, 0, 0, 0, 0, 0⟩, ⟨0, 0, 0, 0, 0, 0⟩, 0, 0, 0, 0, 0⟩
  sequence := awdlChanseqInitStatic chanNull
  syncOffset := 0
  name := Fixed.replicate _ 0
  countryCode := Fixed.replicate _ 0
  infraAddr := ⟨0, 0, 0, 0, 0, 0⟩
  version := 0
  devclass := 0
  supportsV2 := false
  sentMif := false
  isValid := false

section Table

variable {Event : Type} (hash : EtherAddr → UInt64)

/-- The end of `awdl_peer_add`: a peer that turns valid is announced once. -/
def announce (cb : Option (Peer → Event)) (peer : Peer) : Peer × List Event :=
  if !peer.isValid && awdlPeerIsValid peer then
    ({ peer with isValid := true }, (cb.map (· { peer with isValid := true })).toList)
  else (peer, [])

def awdlPeerAdd (alloc : Nat → Bool) (memory : Peer) (peers : PeerMap) (addr : EtherAddr)
    (now : UInt64) (cb : Option (Peer → Event)) : PeersStatus × PeerMap × List Event :=
  match hashmapGet hash peers addr false with
  | (.ok, some peer, _) =>
      let turned := announce cb { peer with lastUpdate := now }
      -- A known peer is reported as an update, whatever the callback does.
      (.update, storeData hash peers addr turned.1, turned.2)
  | _ =>
      let peer := { awdlPeerNew memory addr with lastUpdate := now }
      match hashmapPut hash alloc peers peer.addr peer with
      | (.ok, peers) =>
          let turned := announce cb peer
          -- A fresh peer has sent nothing yet, so `announce` leaves it as it is.
          (.ok, storeData hash peers addr turned.1, turned.2)
      | (_, peers) => (.internal, peers, [])

def awdlPeerRemove (peers : PeerMap) (addr : EtherAddr) (cb : Option (Peer → Event)) :
    PeersStatus × PeerMap × List Event :=
  match hashmapGet hash peers addr true with
  | (.ok, some peer, peers) =>
      (.ok, peers, if peer.isValid then (cb.map (· peer)).toList else [])
  | (_, _, peers) => (.missing, peers, [])

def awdlPeerGet (peers : PeerMap) (addr : EtherAddr) : PeersStatus × Option Peer :=
  match hashmapGet hash peers addr false with
  | (.missing, _, _) => (.missing, none)
  | (_, peer, _) => (.ok, peer)

def peersRemoveLoop (before : UInt64) (cb : Option (Peer → Event)) :
    Nat → Nat → PeerMap → PeerMap × List Event
  | 0, _, peers => (peers, [])
  | fuel + 1, pos, peers =>
      match hashmapItNext peers pos with
      | none => (peers, [])
      | some (index, _, peer) =>
          if peer.lastUpdate < before then
            let events := if peer.isValid then (cb.map (· peer)).toList else []
            -- Removing frees the slot in place, so the iterator goes on behind it.
            let rest := peersRemoveLoop before cb fuel (index + 1) (hashmapItRemove peers index).2
            (rest.1, events ++ rest.2)
          else peersRemoveLoop before cb fuel (index + 1) peers

def awdlPeersRemove (peers : PeerMap) (before : UInt64) (cb : Option (Peer → Event)) :
    PeerMap × List Event :=
  peersRemoveLoop before cb (peers.slots.length + 1) 0 peers

end Table

def awdlPeersIterate (peers : PeerMap) : List Peer := (hashmapIterate peers).map Prod.snd

end Owl.Peers
