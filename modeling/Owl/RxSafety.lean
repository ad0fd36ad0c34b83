import Owl.RxData

/-!
Memory safety of the receive path. For every captured frame and every state no
read, view or store of `awdl_rx` leaves its object. The one thing the code does
not keep to is the view itself: the addresses of the 802.11 header are read
through pointers after the header was stripped. A strict run, in which such a
read is a fault, agrees with the lenient one up to the first of them.
-/

namespace Owl.RxSafety

open Bytes Ether Siphash Peers Wire State Frames RxTlv Rx RxSpec RxAction RxData

section Agreement

variable (strict : Bool)

/-- The same run, unless a strict one stops at a stripped byte. -/
def Agrees {α : Type} (left right : Except Fault α) : Prop :=
  left = right ∨ strict = true ∧ left = .error .stale

variable {strict}

theorem Agrees.refl {α : Type} (run : Except Fault α) : Agrees strict run run := .inl rfl

theorem Agrees.bind {α β : Type} {left right : Except Fault α} {first second : α → Except Fault β}
    (runs : Agrees strict left right) (next : ∀ value, Agrees strict (first value) (second value)) :
    Agrees strict (left >>= first) (right >>= second) := by
  rcases runs with rfl | ⟨on, rfl⟩
  · cases left with
    | error fault => exact .inl rfl
    | ok value => exact next value
  · exact .inr ⟨on, rfl⟩

theorem Agrees.ite {α : Type} {condition : Prop} [Decidable condition]
    {left left' right right' : Except Fault α} (yes : Agrees strict left right)
    (no : Agrees strict left' right') :
    Agrees strict (if condition then left else left') (if condition then right else right') := by
  split
  · exact yes
  · exact no

variable (hash : EtherAddr → UInt64) (env : RxEnv)

theorem deref_agrees (frame : Buf) (ptr : AddrPtr) :
    Agrees strict (deref strict frame ptr) (deref false frame ptr) := by
  cases ptr with
  | copy addr => exact .refl _
  | kept base offset =>
      cases strict with
      | false => exact .refl _
      | true =>
          by_cases stale : offset < base.bytes.length - frame.bytes.length
          · refine .inr ⟨rfl, ?_⟩
            simp only [deref, true_and, stale, ↓reduceIte]
            rfl
          · left
            simp only [deref, stale, and_false, ↓reduceIte]

theorem acceptAction_agrees (frame : Buf) (src : AddrPtr) (subtype : UInt8) (state : AwdlState) :
    Agrees strict (acceptAction strict hash env frame src subtype state)
      (acceptAction false hash env frame src subtype state) := by
  unfold acceptAction
  refine (deref_agrees frame src).bind fun addr => ?_
  refine .ite (.refl _) (.ite (.refl _) ?_)
  split
  · refine (Agrees.refl _).bind fun loop => ?_
    exact .ite (.refl _) (.ite (.refl _) ((deref_agrees loop.frame src).bind fun addr => .refl _))
  · exact .refl _

theorem awdlRxAction_agrees (frame : Buf) (rssi : Int8) (src : AddrPtr) (state : AwdlState) :
    Agrees strict (awdlRxAction strict hash env frame rssi src state)
      (awdlRxAction false hash env frame rssi src state) := by
  unfold awdlRxAction
  refine (Agrees.refl _).bind fun subtype => ?_
  cases subtype with
  | none => exact .refl _
  | some subtype =>
      exact .ite ((deref_agrees _ src).bind fun addr =>
        .ite (.refl _) (acceptAction_agrees hash env _ src subtype state))
        (acceptAction_agrees hash env _ src subtype state)

theorem awdlRxData_agrees (frame : Buf) (src dst : AddrPtr) (state : AwdlState) (index : Nat) :
    Agrees strict (awdlRxData strict hash env frame src dst state index)
      (awdlRxData false hash env frame src dst state index) := by
  unfold awdlRxData
  refine (deref_agrees frame src).bind fun addr => .ite (.refl _) ?_
  refine (Agrees.refl _).bind fun accepted => .ite (.refl _) (.ite (.refl _) ?_)
  refine (Agrees.refl _).bind fun type => ?_
  cases type with
  | none => exact .refl _
  | some type => exact (deref_agrees _ dst).bind fun target => .refl _

/-- Subframes have their addresses in locals. -/
theorem amsduLoop_strict (fuel : Nat) :
    amsduLoop strict hash env fuel = amsduLoop false hash env fuel := by
  induction fuel with
  | zero => rfl
  | succ fuel ih =>
      funext frame state index
      rw [amsduLoop, amsduLoop, ih]
      rfl

theorem dispatch_agrees (frame : Buf) (rssi : Int8) (fc : UInt16) (source target : AddrPtr)
    (state : AwdlState) :
    Agrees strict (dispatch strict hash env frame rssi fc source target state)
      (dispatch false hash env frame rssi fc source target state) := by
  have data : ∀ body, Agrees strict
      (do return (← awdlRxData strict hash env body source target state 0).toRx)
      (do return (← awdlRxData false hash env body source target state 0).toRx) := fun body =>
    (awdlRxData_agrees hash env body source target state 0).bind fun outcome => .refl _
  unfold dispatch
  refine .ite (awdlRxAction_agrees hash env frame rssi source state) (.ite ?_ (.ite (data _) (.refl _)))
  refine (Agrees.refl _).bind fun control => ?_
  cases control with
  | none => exact .refl _
  | some control =>
      dsimp only
      split
      · refine .ite ?_ (data _)
        rw [awdlRxDataAmsdu, awdlRxDataAmsdu, amsduLoop_strict]
        exact .refl _
      · exact .refl _

end Agreement

/-- Without the strict reading no frame makes `awdl_rx` fault; with it the only
fault is the use of an address of the stripped 802.11 header. -/
theorem awdlRx_safe (hash : EtherAddr → UInt64) (env : RxEnv) (frame : Buf) (state : AwdlState)
    (inside : RadiotapInside env) :
    (∃ outcome, awdlRx false hash env frame state = .ok outcome) ∧
      ∀ fault, awdlRx true hash env frame state = .error fault → fault = .stale := by
  obtain ⟨outcome, lenient, -⟩ := awdlRx_delivers hash env frame state inside
  refine ⟨⟨outcome, lenient⟩, ?_⟩
  intro fault failed
  rcases awdlRx_cases true hash env frame state (inside _) with
    ⟨-, early, run, -⟩ | ⟨mac, found, other, run⟩
  · rw [run] at failed
    cases failed
  · obtain ⟨outcome, dispatched, -⟩ := dispatch_delivers hash env
      (radiotapParse env frame).2.1 mac state (macFrame_length env frame mac found)
    have agrees : Agrees true _ _ := dispatch_agrees hash env (mac.drop 24)
      (radiotapParse env frame).2.1 (macFc mac) (.kept mac 10) (.kept mac 4) state
    rcases agrees with same | ⟨-, stale⟩
    · rw [run, same, dispatched] at failed
      cases failed
    · rw [run, stale] at failed
      cases failed
      rfl

/-- The RSSI filter looks the sender up behind the stripped header. -/
theorem awdlRx_reads_stripped :
    awdlRx true addrHash zeroEnv psfCapture startState = .error .stale := by
  have stops : (awdlRx true addrHash zeroEnv psfCapture startState).map (fun _ => ()) =
      .error .stale := by decide +kernel
  cases run : awdlRx true addrHash zeroEnv psfCapture startState with
  | ok outcome =>
      rw [run] at stops
      cases stops
  | error fault =>
      rw [run] at stops
      cases stops
      rfl

theorem awdlRx_safe_psf : RadiotapInside zeroEnv ∧
    ∃ outcome, awdlRx false addrHash zeroEnv psfCapture startState = .ok outcome :=
  ⟨byteRadiotap_inside, (awdlRx_safe addrHash zeroEnv psfCapture startState byteRadiotap_inside).1⟩

end Owl.RxSafety
