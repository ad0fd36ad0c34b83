import Owl.Peers
import Owl.HashmapRefine

/-!
The peer table as a finite map from addresses to entries. Each function of
`peers.c` has one lemma that says what it does to the finite map and which
callbacks it makes. A run of these functions is then followed by the same run
on the finite map, in which an entry is present exactly when it was added and
not removed since.
-/

namespace Owl.PeersRefine

open Ether Hashmap Peers Slots

variable {Event : Type} {hash : EtherAddr → UInt64}

structure TableValid (hash : EtherAddr → UInt64) (peers : PeerMap) : Prop where
  map : Valid hash peers
  own : ∀ addr peer, peers.contents addr = some peer → peer.addr = addr

theorem awdlPeersInit_contents : (awdlPeersInit : PeerMap).contents = fun _ => none :=
  hashmapNew_contents

theorem awdlPeersInit_valid : TableValid hash awdlPeersInit where
  map := hashmapNew_valid
  own := by
    intro addr peer present
    rw [awdlPeersInit_contents] at present
    cases present

theorem awdlPeerGet_eq (peers : PeerMap) (valid : Valid hash peers) (addr : EtherAddr) :
    awdlPeerGet hash peers addr =
      match peers.contents addr with
      | some peer => (.ok, some peer)
      | none => (.missing, none) := by
  rw [awdlPeerGet, hashmapGet_keep peers valid addr]
  cases peers.contents addr <;> rfl

/-- At most the mark of validity changes, and never back. -/
theorem announce_only (cb : Option (Peer → Event)) (peer : Peer) :
    (announce cb peer).1 = { peer with isValid := peer.isValid || awdlPeerIsValid peer } := by
  unfold announce
  split
  case isTrue turns =>
    rw [Bool.and_eq_true] at turns
    rw [turns.2, Bool.or_true]
  case isFalse still =>
    have same : (peer.isValid || awdlPeerIsValid peer) = peer.isValid := by
      cases old : peer.isValid with
      | true => rfl
      | false => simpa [old] using still
    rw [same]

/-- A new peer has not sent a MIF yet, so it is never announced at once. -/
theorem announce_new (cb : Option (Peer → Event)) (memory : Peer) (addr : EtherAddr)
    (now : UInt64) :
    announce cb { awdlPeerNew memory addr with lastUpdate := now } =
      ({ awdlPeerNew memory addr with lastUpdate := now }, []) := rfl

inductive Added (hash : EtherAddr → UInt64) (memory : Peer) (before : PeerMap) (addr : EtherAddr)
    (now : UInt64) (cb : Option (Peer → Event)) : PeersStatus × PeerMap × List Event → Prop where
  | update (peer : Peer) (found : before.contents addr = some peer) (after : PeerMap)
      (valid : Valid hash after)
      (contents : after.contents = Function.update before.contents addr
        (some (announce cb { peer with lastUpdate := now }).1)) :
      Added hash memory before addr now cb
        (.update, after, (announce cb { peer with lastUpdate := now }).2)
  | new (absent : before.contents addr = none) (after : PeerMap) (valid : Valid hash after)
      (contents : after.contents = Function.update before.contents addr
        (some { awdlPeerNew memory addr with lastUpdate := now })) :
      Added hash memory before addr now cb (.ok, after, [])
  | refused (absent : before.contents addr = none) (after : PeerMap) (valid : Valid hash after)
      (fewer : ∀ other peer, after.contents other = some peer →
        before.contents other = some peer) :
      Added hash memory before addr now cb (.internal, after, [])

theorem awdlPeerAdd_added (alloc : Nat → Bool) (memory : Peer) (peers : PeerMap)
    (valid : Valid hash peers) (addr : EtherAddr) (now : UInt64) (cb : Option (Peer → Event)) :
    Added hash memory peers addr now cb (awdlPeerAdd hash alloc memory peers addr now cb) := by
  unfold awdlPeerAdd
  rw [hashmapGet_keep peers valid addr]
  cases found : peers.contents addr with
  | some peer =>
      obtain ⟨after, contents, -⟩ := storeData_present peers valid addr peer
        (announce cb { peer with lastUpdate := now }).1 found
      exact Added.update peer found _ after contents
  | none =>
      have status : (hashmapPut hash alloc peers addr
          { awdlPeerNew memory addr with lastUpdate := now }).1 = .ok ∨
          (hashmapPut hash alloc peers addr
            { awdlPeerNew memory addr with lastUpdate := now }).1 = .omem :=
        hashmapPutFuel_status alloc 30 peers addr _
      dsimp only
      cases put : hashmapPut hash alloc peers addr
          { awdlPeerNew memory addr with lastUpdate := now } with
      | mk result next =>
          rw [put] at status
          have put' : hashmapPut hash alloc peers
              ({ awdlPeerNew memory addr with lastUpdate := now } : Peer).addr
              { awdlPeerNew memory addr with lastUpdate := now } = (result, next) := put
          rw [put']
          rcases status with rfl | rfl
          · obtain ⟨nextValid, contents⟩ := hashmapPut_fresh alloc peers next valid addr _ found put
            obtain ⟨after, stored, -⟩ := storeData_present next nextValid addr _
              { awdlPeerNew memory addr with lastUpdate := now }
              (by rw [contents, Function.update_self])
            refine Added.new found _ after ?_
            rw [announce_new, stored, contents, Function.update_idem]
          · obtain ⟨nextValid, fewer⟩ := hashmapPut_omem alloc peers next valid addr _ found put
            exact Added.refused found next nextValid fewer

/-- A property of every entry outlives a write under one key whose entry has it too. -/
theorem update_keeps {property : EtherAddr → Peer → Prop} {contents : EtherAddr → Option Peer}
    {addr : EtherAddr} {entry : Option Peer}
    (before : ∀ other peer, contents other = some peer → property other peer)
    (written : ∀ peer, entry = some peer → property addr peer) (other : EtherAddr) (peer : Peer)
    (present : Function.update contents addr entry other = some peer) : property other peer := by
  by_cases same : other = addr
  · subst same
    rw [Function.update_self] at present
    exact written peer present
  · rw [Function.update_of_ne same] at present
    exact before other peer present

theorem Added.valid {memory : Peer} {before : PeerMap} {addr : EtherAddr} {now : UInt64}
    {cb : Option (Peer → Event)} {result : PeersStatus × PeerMap × List Event}
    (added : Added hash memory before addr now cb result)
    (own : ∀ addr peer, before.contents addr = some peer → peer.addr = addr) :
    TableValid hash result.2.1 := by
  have stored : ∀ entry : Peer, entry.addr = addr → ∀ other peer,
      Function.update before.contents addr (some entry) other = some peer →
      peer.addr = other := by
    intro entry known
    refine update_keeps own ?_
    rintro peer ⟨⟩
    exact known
  cases added with
  | update peer found after valid contents =>
      refine ⟨valid, ?_⟩
      rw [contents]
      exact stored _ ((congrArg Peer.addr (announce_only cb _)).trans (own addr peer found))
  | new absent after valid contents =>
      refine ⟨valid, ?_⟩
      rw [contents]
      exact stored _ rfl
  | refused absent after valid fewer =>
      exact ⟨valid, fun other peer present => own other peer (fewer other peer present)⟩

def farewell (cb : Option (Peer → Event)) (peer : Peer) : List Event :=
  if peer.isValid then (cb.map (· peer)).toList else []

theorem awdlPeerRemove_eq (peers : PeerMap) (valid : Valid hash peers) (addr : EtherAddr)
    (cb : Option (Peer → Event)) :
    Valid hash (awdlPeerRemove hash peers addr cb).2.1 ∧
      (awdlPeerRemove hash peers addr cb).2.1.contents =
        Function.update peers.contents addr none ∧
      (awdlPeerRemove hash peers addr cb).1 =
        (if (peers.contents addr).isSome then .ok else .missing) ∧
      (awdlPeerRemove hash peers addr cb).2.2 =
        ((peers.contents addr).map (farewell cb)).getD [] := by
  obtain ⟨status, data, after, contents⟩ := hashmapGet_remove peers valid addr
  unfold awdlPeerRemove
  cases search : hashmapGet hash peers addr true with
  | mk result rest =>
      obtain ⟨found, next⟩ := rest
      rw [search] at status data after contents
      simp only at status data after contents
      subst data
      cases present : peers.contents addr with
      | none =>
          rw [present] at status
          simp only [Option.isSome_none, Bool.false_eq_true, ↓reduceIte] at status
          subst status
          exact ⟨after, contents, rfl, rfl⟩
      | some peer =>
          rw [present] at status
          simp only [Option.isSome_some, ↓reduceIte] at status
          subst status
          exact ⟨after, contents, rfl, rfl⟩

/-- The loop of `awdl_peers_remove` in terms of the pairs it has not seen yet. -/
theorem peersRemoveLoop_eq (limit : UInt64) (cb : Option (Peer → Event)) (fuel pos : Nat)
    (peers : PeerMap) (valid : Valid hash peers) (inside : pos ≤ peers.slots.length)
    (enough : peers.slots.length < pos + fuel) :
    Valid hash (peersRemoveLoop limit cb fuel pos peers).1 ∧
      (∀ addr, (peersRemoveLoop limit cb fuel pos peers).1.contents addr =
        (peers.contents addr).filter fun peer =>
          !decide ((addr, peer) ∈ (peers.slots.drop pos).reduceOption ∧ peer.lastUpdate < limit)) ∧
      (peersRemoveLoop limit cb fuel pos peers).2 =
        ((peers.slots.drop pos).reduceOption.filter
          fun element => decide (element.2.lastUpdate < limit)).flatMap
            fun element => farewell cb element.2 := by
  induction fuel generalizing pos peers with
  | zero => omega
  | succ fuel ih =>
      rw [peersRemoveLoop]
      cases next : hashmapItNext peers pos with
      | none =>
          have done := firstFrom_none peers.slots _ pos (by omega) next
          refine ⟨valid, ?_, by simp [done]⟩
          intro addr
          cases peers.contents addr <;> simp [done, Option.filter_some]
      | some element =>
          obtain ⟨index, key, peer⟩ := element
          obtain ⟨start, used, remaining⟩ :=
            firstFrom_some peers.slots _ pos index (key, peer) (by omega) next
          obtain ⟨bound, -⟩ := List.getElem?_eq_some_iff.mp used
          have member : (key, peer) ∈ peers.entries :=
            (mem_reduceOption_iff_get peers.slots _).mpr ⟨index, used⟩
          have present := (contents_some_iff peers valid.distinct key peer).mpr member
          dsimp only
          by_cases stale : peer.lastUpdate < limit
          · obtain ⟨clearValid, cleared⟩ := clear_valid peers valid index key peer used
            have removed : (hashmapItRemove peers index).2 =
                ⟨peers.slots.set index none, peers.size - 1⟩ := by
              have slot := (getD_some_iff peers.slots index (key, peer)).mpr used
              rw [hashmapItRemove, slot]
            have rest : (peers.slots.set index none).drop (index + 1) =
                peers.slots.drop (index + 1) := by
              rw [List.drop_set_of_lt (Nat.lt_succ_self index)]
            obtain ⟨afterValid, contents, events⟩ := ih (index + 1)
              ⟨peers.slots.set index none, peers.size - 1⟩ clearValid (by simp; omega)
              (by simp; omega)
            simp only [stale, ↓reduceIte, removed]
            refine ⟨afterValid, ?_, ?_⟩
            · intro addr
              rw [contents, cleared, rest, remaining]
              by_cases same : addr = key
              · subst same
                rw [Function.update_self, present, Option.filter_none, Option.filter_some]
                simp [stale]
              · rw [Function.update_of_ne same]
                simp [same]
            · rw [events, remaining, rest]
              simp [stale, farewell]
          · obtain ⟨afterValid, contents, events⟩ := ih (index + 1) peers valid (by omega) (by omega)
            simp only [stale, ↓reduceIte]
            refine ⟨afterValid, ?_, ?_⟩
            · intro addr
              rw [contents, remaining]
              by_cases same : addr = key
              · subst same
                rw [present, Option.filter_some, Option.filter_some]
                simp [stale]
              · simp [same]
            · rw [events, remaining]
              simp [stale]

theorem awdlPeersRemove_eq (peers : PeerMap) (valid : Valid hash peers) (limit : UInt64)
    (cb : Option (Peer → Event)) :
    Valid hash (awdlPeersRemove peers limit cb).1 ∧
      (∀ addr, (awdlPeersRemove peers limit cb).1.contents addr =
        (peers.contents addr).filter fun peer => !decide (peer.lastUpdate < limit)) ∧
      (awdlPeersRemove peers limit cb).2 =
        (peers.entries.filter fun element => decide (element.2.lastUpdate < limit)).flatMap
          fun element => farewell cb element.2 := by
  obtain ⟨after, contents, events⟩ := peersRemoveLoop_eq limit cb (peers.slots.length + 1) 0 peers
    valid (Nat.zero_le _) (by omega)
  refine ⟨after, ?_, events⟩
  intro addr
  rw [awdlPeersRemove, contents]
  cases present : peers.contents addr with
  | none => rfl
  | some peer =>
      have member := (contents_some_iff peers valid.distinct addr peer).mp present
      have listed : (addr, peer) ∈ (peers.slots.drop 0).reduceOption := member
      rw [Option.filter_some, Option.filter_some]
      simp only [listed, true_and]

theorem awdlPeersIterate_eq (peers : PeerMap) :
    awdlPeersIterate peers = peers.entries.map Prod.snd := by
  rw [awdlPeersIterate, hashmapIterate_entries]

theorem mem_awdlPeersIterate (peers : PeerMap) (valid : TableValid hash peers) (peer : Peer) :
    peer ∈ awdlPeersIterate peers ↔ peers.contents peer.addr = some peer := by
  rw [awdlPeersIterate_eq, contents_some_iff peers valid.map.distinct, List.mem_map]
  constructor
  · rintro ⟨⟨key, stored⟩, member, rfl⟩
    have known := valid.own key stored
      ((contents_some_iff peers valid.map.distinct key stored).mpr member)
    rw [known]
    exact member
  · intro member
    exact ⟨_, member, rfl⟩

theorem awdlPeersIterate_nodup (peers : PeerMap) (valid : TableValid hash peers) :
    (awdlPeersIterate peers).Nodup := by
  have keys : peers.keys = (awdlPeersIterate peers).map Peer.addr := by
    rw [awdlPeersIterate_eq, List.map_map]
    apply List.map_congr_left
    rintro ⟨key, peer⟩ member
    exact (valid.own key peer
      ((contents_some_iff peers valid.map.distinct key peer).mpr member)).symm
  have distinct := valid.map.distinct
  rw [keys] at distinct
  exact distinct.of_map

theorem awdlPeersLength_eq (peers : PeerMap) (valid : Valid hash peers) :
    awdlPeersLength peers = Set.ncard {addr | (peers.contents addr).isSome} := by
  rw [contents_ncard peers valid]
  exact valid.counted

/-! Runs of the peer table next to runs of the finite map. -/
section Runs

/-- The calls of a run, with what the allocator does during an insertion. `edit`
is a store through the pointer that `awdl_peer_get` hands out; the address
field is `const`. -/
inductive PeerOp (Event : Type) where
  | add (addr : EtherAddr) (now : UInt64) (alloc : Nat → Bool) (memory : Peer)
      (cb : Option (Peer → Event))
  | get (addr : EtherAddr)
  | remove (addr : EtherAddr) (cb : Option (Peer → Event))
  | purge (limit : UInt64) (cb : Option (Peer → Event))
  | edit (addr : EtherAddr) (change : Peer → Peer)

def PeerOp.run (hash : EtherAddr → UInt64) (peers : PeerMap) : PeerOp Event → PeerMap
  | .add addr now alloc memory cb => (awdlPeerAdd hash alloc memory peers addr now cb).2.1
  | .get _ => peers
  | .remove addr cb => (awdlPeerRemove hash peers addr cb).2.1
  | .purge limit cb => (awdlPeersRemove peers limit cb).1
  | .edit addr change =>
      match awdlPeerGet hash peers addr with
      | (_, some peer) => storeData hash peers addr { change peer with addr := peer.addr }
      | (_, none) => peers

def PeerOp.granted (hash : EtherAddr → UInt64) (peers : PeerMap) : PeerOp Event → Prop
  | .add addr now alloc memory cb => (awdlPeerAdd hash alloc memory peers addr now cb).1 ≠ .internal
  | _ => True

inductive Runs (hash : EtherAddr → UInt64) : List (PeerOp Event) → PeerMap → Prop where
  | init : Runs hash [] awdlPeersInit
  | step (ops : List (PeerOp Event)) (peers : PeerMap) (op : PeerOp Event)
      (run : Runs hash ops peers) (granted : op.granted hash peers) :
      Runs hash (ops ++ [op]) (op.run hash peers)

abbrev FiniteMap := EtherAddr → Option Peer

def FiniteMap.step (map : FiniteMap) : PeerOp Event → FiniteMap
  | .add addr now _ memory cb =>
      Function.update map addr (some (announce cb
        { (map addr).getD (awdlPeerNew memory addr) with lastUpdate := now }).1)
  | .get _ => map
  | .remove addr _ => Function.update map addr none
  | .purge limit _ => fun addr => (map addr).filter fun peer => !decide (peer.lastUpdate < limit)
  | .edit addr change =>
      Function.update map addr ((map addr).map fun peer => { change peer with addr := peer.addr })

def FiniteMap.run (ops : List (PeerOp Event)) : FiniteMap :=
  ops.foldl FiniteMap.step fun _ => none

theorem FiniteMap.run_append (ops : List (PeerOp Event)) (op : PeerOp Event) :
    FiniteMap.run (ops ++ [op]) = (FiniteMap.run ops).step op := by
  simp [FiniteMap.run]

theorem step_refines (peers : PeerMap) (valid : TableValid hash peers) (op : PeerOp Event)
    (granted : op.granted hash peers) :
    TableValid hash (op.run hash peers) ∧
      (op.run hash peers).contents = FiniteMap.step peers.contents op := by
  cases op with
  | add addr now alloc memory cb =>
      have added := awdlPeerAdd_added alloc memory peers valid.map addr now cb
      refine ⟨added.valid valid.own, ?_⟩
      simp only [PeerOp.granted, PeerOp.run, FiniteMap.step] at granted ⊢
      generalize awdlPeerAdd hash alloc memory peers addr now cb = result at added granted
      cases added with
      | update peer found after _ contents => simp [contents, found]
      | new absent after _ contents => simp [contents, absent, announce_new]
      | refused absent after _ _ => exact absurd rfl granted
  | get addr => exact ⟨valid, rfl⟩
  | remove addr cb =>
      obtain ⟨after, contents, -⟩ := awdlPeerRemove_eq peers valid.map addr cb
      refine ⟨⟨after, ?_⟩, contents⟩
      simp only [PeerOp.run, contents]
      refine update_keeps valid.own ?_
      rintro peer ⟨⟩
  | purge limit cb =>
      obtain ⟨after, contents, -⟩ := awdlPeersRemove_eq peers valid.map limit cb
      refine ⟨⟨after, ?_⟩, funext contents⟩
      intro addr peer present
      simp only [PeerOp.run, contents, Option.filter_eq_some_iff] at present
      exact valid.own addr peer present.1
  | edit addr change =>
      simp only [PeerOp.run, awdlPeerGet_eq peers valid.map addr, FiniteMap.step]
      cases found : peers.contents addr with
      | none =>
          have unchanged : Function.update peers.contents addr none = peers.contents := by
            rw [← found, Function.update_eq_self]
          exact ⟨valid, unchanged.symm⟩
      | some peer =>
          obtain ⟨after, contents, -⟩ := storeData_present peers valid.map addr peer
            { change peer with addr := peer.addr } found
          refine ⟨⟨after, ?_⟩, contents⟩
          rw [contents]
          refine update_keeps valid.own ?_
          rintro entry ⟨⟩
          exact valid.own addr peer found

/-- The table of a run stands for the finite map of the same run. -/
theorem run_refines (ops : List (PeerOp Event)) (peers : PeerMap) (run : Runs hash ops peers) :
    TableValid hash peers ∧ peers.contents = FiniteMap.run ops := by
  induction run with
  | init => exact ⟨awdlPeersInit_valid, awdlPeersInit_contents⟩
  | step ops peers op _ granted ih =>
      obtain ⟨after, contents⟩ := step_refines peers ih.1 op granted
      refine ⟨after, ?_⟩
      rw [contents, ih.2, FiniteMap.run_append]

def PeerOp.adds (addr : EtherAddr) : PeerOp Event → Prop
  | .add other _ _ _ _ => other = addr
  | _ => False

def PeerOp.removes (map : FiniteMap) (addr : EtherAddr) : PeerOp Event → Prop
  | .remove other _ => other = addr
  | .purge limit _ => ∃ peer, map addr = some peer ∧ peer.lastUpdate < limit
  | _ => False

theorem step_isSome_iff (map : FiniteMap) (op : PeerOp Event) (addr : EtherAddr) :
    (map.step op addr).isSome ↔ op.adds addr ∨ (map addr).isSome ∧ ¬ op.removes map addr := by
  cases op with
  | add other now alloc memory cb =>
      by_cases same : addr = other
      · subst same
        simp [FiniteMap.step, PeerOp.adds]
      · simp [FiniteMap.step, PeerOp.adds, PeerOp.removes, Function.update_of_ne same, Ne.symm same]
  | get other => simp [FiniteMap.step, PeerOp.adds, PeerOp.removes]
  | remove other cb =>
      by_cases same : addr = other
      · subst same
        simp [FiniteMap.step, PeerOp.adds, PeerOp.removes]
      · simp [FiniteMap.step, PeerOp.adds, PeerOp.removes, Function.update_of_ne same, Ne.symm same]
  | purge limit cb =>
      cases found : map addr with
      | none => simp [FiniteMap.step, PeerOp.adds, found]
      | some peer =>
          by_cases stale : peer.lastUpdate < limit
          · simp [FiniteMap.step, PeerOp.adds, PeerOp.removes, found, Option.filter_some, stale]
          · simp [FiniteMap.step, PeerOp.adds, PeerOp.removes, found, Option.filter_some, stale]
  | edit other change =>
      by_cases same : addr = other
      · subst same
        simp [FiniteMap.step, PeerOp.adds, PeerOp.removes]
      · simp [FiniteMap.step, PeerOp.adds, PeerOp.removes, Function.update_of_ne same]

def AddedSince (ops : List (PeerOp Event)) (addr : EtherAddr) : Prop :=
  ∃ earlier op later, ops = earlier ++ op :: later ∧ op.adds addr ∧
    ∀ mid next rest, later = mid ++ next :: rest →
      ¬ next.removes (FiniteMap.run (earlier ++ op :: mid)) addr

theorem addedSince_append (ops : List (PeerOp Event)) (op : PeerOp Event) (addr : EtherAddr) :
    AddedSince (ops ++ [op]) addr ↔
      op.adds addr ∨ AddedSince ops addr ∧ ¬ op.removes (FiniteMap.run ops) addr := by
  constructor
  · rintro ⟨earlier, start, later, split, adds, kept⟩
    rcases List.eq_nil_or_concat later with rfl | ⟨before, last, rfl⟩
    · obtain ⟨-, tail⟩ := List.append_inj' split rfl
      simp only [List.cons.injEq, and_true] at tail
      exact .inl (tail ▸ adds)
    · have shape : ops ++ [op] = (earlier ++ start :: before) ++ [last] := by simp [split]
      obtain ⟨same, tail⟩ := List.append_inj' shape rfl
      simp only [List.cons.injEq, and_true] at tail
      subst same
      subst tail
      refine .inr ⟨⟨earlier, start, before, rfl, adds, ?_⟩, kept before op [] (by simp)⟩
      intro mid next rest found
      exact kept mid next (rest ++ [op]) (by simp [found])
  · rintro (adds | ⟨⟨earlier, start, later, rfl, adds, kept⟩, stays⟩)
    · refine ⟨ops, op, [], rfl, adds, ?_⟩
      intro mid next rest found
      simp at found
    · refine ⟨earlier, start, later ++ [op], by simp, adds, ?_⟩
      intro mid next rest found
      rcases List.eq_nil_or_concat rest with rfl | ⟨before, last, rfl⟩
      · obtain ⟨same, tail⟩ := List.append_inj' found rfl
        simp only [List.cons.injEq, and_true] at tail
        subst same
        subst tail
        exact stays
      · have shape : later ++ [op] = (mid ++ next :: before) ++ [last] := by simp [found]
        obtain ⟨same, -⟩ := List.append_inj' shape rfl
        exact kept mid next before same

theorem run_isSome_iff (ops : List (PeerOp Event)) (addr : EtherAddr) :
    (FiniteMap.run ops addr).isSome ↔ AddedSince ops addr := by
  induction ops using List.reverseRecOn with
  | nil =>
      simp only [FiniteMap.run, List.foldl_nil, Option.isSome_none, Bool.false_eq_true, false_iff]
      rintro ⟨earlier, op, later, split, -⟩
      simp at split
  | append_singleton ops op ih =>
      rw [FiniteMap.run_append, step_isSome_iff, addedSince_append, ih]

end Runs

end Owl.PeersRefine
