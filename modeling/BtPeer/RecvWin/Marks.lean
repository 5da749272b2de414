import BtPeer.Library.Run
import BtPeer.RecvWin
import Mathlib.Order.Bounds.Defs

/-
  The receive window over any sequence of its operations
  holds the set of the sequence numbers that were marked.

  Key definitions include:
    * `WinOp`
    * `RecvWin.step`
    * `MarkedIn`

  Key theorems include:
    * `step_tracks`
    * `run_tracks`
    * `recvwin_holds_marks`
-/

------------------------------------------------------------
-- Operations On The Window
------------------------------------------------------------

namespace BtPeer

inductive WinOp where
  | mark (seq : Word)
  | slideack
deriving DecidableEq

def RecvWin.step
    (rwin : RecvWin) : WinOp → RecvWin
| .mark seq => recvwinMark rwin seq
| .slideack => recvwinSlideack rwin

namespace WinOp

/-
  The window ends before the last `uint32_t`, and a sequence
  number that is marked fits in.
-/
def Fits
    (rwin : RecvWin) : WinOp → Prop
| .mark seq =>
    rwin.nextSeq.toNat + recvWindowSize < 4294967296 ∧
      seqFitIn rwin seq = true
| .slideack =>
    rwin.nextSeq.toNat + recvWindowSize < 4294967296

end WinOp

/- Sequence number `n` is marked by one of the operations. -/
def MarkedIn
    (ops : List WinOp)
    (n : Nat) : Prop :=
  ∃ seq : Word, WinOp.mark seq ∈ ops ∧ seq.toNat = n

theorem markedIn_toNat
    (ops : List WinOp)
    (seq : Word) :
    MarkedIn ops seq.toNat ↔ WinOp.mark seq ∈ ops := by
  constructor
  · rintro ⟨seq', hMem, hEq⟩
    rw [← BitVec.eq_of_toNat_eq hEq]
    exact hMem
  · intro hMem
    exact ⟨seq, hMem, rfl⟩

theorem markedIn_cons
    (op : WinOp)
    (ops : List WinOp)
    (n : Nat) :
    MarkedIn (op :: ops) n ↔
      MarkedIn [op] n ∨ MarkedIn ops n := by
  constructor
  · rintro ⟨seq, hMem, hEq⟩
    rcases List.mem_cons.mp hMem with hHead | hTail
    · exact Or.inl ⟨seq, List.mem_singleton.mpr hHead, hEq⟩
    · exact Or.inr ⟨seq, hTail, hEq⟩
  · rintro (⟨seq, hMem, hEq⟩ | ⟨seq, hMem, hEq⟩)
    · exact ⟨seq, List.mem_cons.mpr
        (Or.inl (List.mem_singleton.mp hMem)), hEq⟩
    · exact ⟨seq, List.mem_cons_of_mem _ hMem, hEq⟩

theorem not_markedIn_slideack
    (n : Nat) :
    ¬ MarkedIn [.slideack] n := by
  rintro ⟨seq, hMem, _⟩
  cases List.mem_singleton.mp hMem

theorem markedIn_mark
    (seq : Word)
    (n : Nat) :
    MarkedIn [.mark seq] n ↔ n = seq.toNat := by
  constructor
  · rintro ⟨seq', hMem, rfl⟩
    cases List.mem_singleton.mp hMem
    rfl
  · rintro rfl
    exact ⟨seq, List.mem_cons_self, rfl⟩

end BtPeer

------------------------------------------------------------
-- What The Window Holds
------------------------------------------------------------

namespace BtPeer

open EventMachine RingWindow

/-
  The window tracks the numbers that meet `P` from 1 on, and
  0 is behind it.
-/
structure RecvWin.Holds
    (P : Nat → Prop)
    (rwin : RecvWin) : Prop where
  tracks : rwin.toRing.Tracks 1 P
  first : 1 ≤ rwin.nextSeq.toNat

theorem init_holds :
    initRecvwin.Holds (fun _ => False) where
  tracks := by
    refine ⟨?_, ?_, fun _ _ hFalse => hFalse⟩
    · intro s hLow hHigh
      exact absurd hLow (Nat.not_le.mpr hHigh)
    · intro s _ _
      rw [toRing_init_has]
      exact ⟨Bool.noConfusion, False.elim⟩
  first := Nat.le_refl 1

theorem slideack_holds
    {P : Nat → Prop}
    {rwin : RecvWin}
    (hHolds : rwin.Holds P)
    (hRoom :
      rwin.nextSeq.toNat + recvWindowSize < 4294967296) :
    (recvwinSlideack rwin).Holds P ∧
      ¬ P (recvwinSlideack rwin).nextSeq.toNat := by
  have hRing := toRing_slideack rwin hRoom
  have hNext :
      (recvwinSlideack rwin).nextSeq.toNat =
        rwin.toRing.slide.next :=
    congrArg SlotRing.next hRing
  rcases SlotRing.tracks_slide hHolds.tracks with
    ⟨hTracks, hFree⟩
  refine ⟨⟨?_, ?_⟩, ?_⟩
  · rw [hRing]
    exact hTracks
  · rw [hNext]
    exact Nat.le_trans hHolds.first
      (SlotRing.slide_next_le rwin.toRing)
  · rw [hNext]
    exact hFree

/- Each operation adds what it marks. -/
theorem step_holds
    {P : Nat → Prop}
    {rwin : RecvWin}
    (hHolds : rwin.Holds P)
    {op : WinOp}
    (hFits : op.Fits rwin) :
    (rwin.step op).Holds
      (fun n => P n ∨ MarkedIn [op] n) := by
  cases op with
  | mark seq =>
      rcases hFits with ⟨hRoom, hFit⟩
      rcases (seqFitIn_iff rwin seq hRoom).mp hFit with
        ⟨hLow, hHigh⟩
      refine ⟨?_, hHolds.first⟩
      have hTracks :=
        SlotRing.tracks_mark hHolds.tracks hLow hHigh
      rw [← toRing_mark] at hTracks
      refine hTracks.congr ?_
      intro n
      rw [markedIn_mark]
  | slideack =>
      rcases slideack_holds hHolds hFits with
        ⟨hTracks, hFirst⟩
      refine ⟨hTracks.tracks.congr ?_, hTracks.first⟩
      intro n
      exact (or_iff_left (not_markedIn_slideack n)).symm

theorem run_holds
    {P : Nat → Prop}
    {rwin : RecvWin}
    (hHolds : rwin.Holds P)
    {ops : List WinOp}
    (hFits :
      Along RecvWin.step (fun rwin op => op.Fits rwin)
        rwin ops) :
    (run RecvWin.step rwin ops).Holds
      (fun n => P n ∨ MarkedIn ops n) := by
  induction ops generalizing P rwin with
  | nil =>
      refine ⟨hHolds.tracks.congr ?_, hHolds.first⟩
      intro n
      refine (or_iff_left ?_).symm
      rintro ⟨seq, hMem, _⟩
      cases hMem
  | cons op ops ih =>
      rcases hFits with ⟨hFirst, hRest⟩
      have hRun := ih (step_holds hHolds hFirst) hRest
      refine ⟨hRun.tracks.congr ?_, hRun.first⟩
      intro n
      rw [markedIn_cons op ops n, or_assoc]

end BtPeer

------------------------------------------------------------
-- The Window As A Set
------------------------------------------------------------

namespace BtPeer

open EventMachine RingWindow

/-
  After any operations on a fresh window, a number of the
  window is present exactly when it was marked. A slide ends
  at the least positive number that was never marked, and the
  numbers that the window gains read as absent.
-/
theorem recvwin_holds_marks
    {ops : List WinOp}
    (hFits :
      Along RecvWin.step (fun rwin op => op.Fits rwin)
        initRecvwin ops) :
    let rwin := run RecvWin.step initRecvwin ops
    (∀ seq : Word,
      rwin.nextSeq.toNat ≤ seq.toNat →
      seq.toNat < rwin.nextSeq.toNat + recvWindowSize →
        (seqExistIn rwin seq = true ↔ .mark seq ∈ ops)) ∧
      (rwin.nextSeq.toNat + recvWindowSize < 4294967296 →
        let slid := recvwinSlideack rwin
        IsLeast {n | 0 < n ∧ ¬ MarkedIn ops n}
            slid.nextSeq.toNat ∧
          ∀ seq : Word,
            rwin.nextSeq.toNat + recvWindowSize ≤
              seq.toNat →
            seq.toNat <
              slid.nextSeq.toNat + recvWindowSize →
              seqExistIn slid seq = false) := by
  intro rwin
  have hHolds : rwin.Holds (MarkedIn ops) := by
    have hRun := run_holds init_holds hFits
    refine ⟨hRun.tracks.congr ?_, hRun.first⟩
    intro n
    exact or_iff_right id
  refine ⟨?_, ?_⟩
  · intro seq hLow hHigh
    rw [seqExistIn_eq_has,
      hHolds.tracks.window seq.toNat hLow hHigh,
      markedIn_toNat]
  · intro hRoom slid
    rcases slideack_holds hHolds hRoom with ⟨hSlid, hFree⟩
    refine ⟨⟨⟨hSlid.first, hFree⟩, ?_⟩, ?_⟩
    · rintro n ⟨hPos, hMissing⟩
      by_contra hBelow
      exact hMissing
        (hSlid.tracks.passed n hPos (Nat.lt_of_not_le hBelow))
    · intro seq hLow hHigh
      have hAhead := hHolds.tracks.ahead seq.toNat hLow
      have hNext : slid.nextSeq.toNat ≤ seq.toNat := by
        have hRing := toRing_slideack rwin hRoom
        have hMoved :
            slid.nextSeq.toNat = rwin.toRing.slide.next :=
          congrArg SlotRing.next hRing
        rw [hMoved]
        exact Nat.le_trans
          (SlotRing.slide_next_lt rwin.toRing) hLow
      rw [seqExistIn_eq_has, Bool.eq_false_iff]
      intro hHas
      exact hAhead
        ((hSlid.tracks.window seq.toNat hNext hHigh).mp hHas)

/- Segment 2 arrives before segment 1. -/
theorem recvwin_holds_marks_out_of_order :
    let ops : List WinOp := [.mark 2, .slideack, .mark 1]
    let rwin := run RecvWin.step initRecvwin ops
    seqExistIn rwin 2 = true ∧
      IsLeast {n | 0 < n ∧ ¬ MarkedIn ops n} 3 := by
  intro ops rwin
  have hFits :
      Along RecvWin.step (fun rwin op => op.Fits rwin)
        initRecvwin ops :=
    ⟨⟨by decide, by decide⟩, by unfold WinOp.Fits; decide,
      ⟨by decide, by decide⟩, trivial⟩
  have hHeld := recvwin_holds_marks hFits
  refine ⟨(hHeld.1 2 (by decide) (by decide)).mpr (by decide),
    ?_⟩
  have hNext : (recvwinSlideack rwin).nextSeq.toNat = 3 := by
    decide
  rw [← hNext]
  exact (hHeld.2 (by decide)).1

end BtPeer
