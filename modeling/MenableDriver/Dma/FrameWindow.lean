import MenableDriver.Dma.Channels

/-!
# The frame that a 32-bit process waits for

A 32-bit process passes the lower 31 bits of a frame number. `men_wait_dmaimg` completes
them with the window of the latest frame, or with the next one when the frame would lie
too far behind. It never looks into the window before.
-/

namespace MenableDriver

set_option autoImplicit false

def intMin : Int := -2147483648

/-- `men_compat_ioctl_wait_for_subbuf32` up to the point where it sleeps. -/
def menCompatIoctlWaitForSubbuf32 (m : Men) (dmachan : Nat) (index : Int) (wid : Nat) : Men × Option Ret :=
  if index < intMin / 2 then (m, some (some .EINVAL))
  else
    match menDmaChannel m dmachan with
    | none => (m, some (some .ECHRNG))
    | some c => menWaitDmaimgEnter m c index true wid

/-- The wait for the frame with the full number `frame`: it is over at once when the frame is
there, and otherwise the entry in the wait list has this number. -/
def waitForFrame (m : Men) (c : ChanRef) (frame wid : Nat) : Men × Option Ret :=
  let ch := m.chan c
  if frame ≤ ch.goodcnt then (m, some none)
  else if ch.state ≠ .started then (m, some (some .ETIMEDOUT))
  else (m.setChan c { ch with waitList := ch.waitList ++ [{ wid := wid, frame := frame }] }, none)

/-- The lower 31 bits of a frame number, as a 32-bit process passes them. -/
def frameindex32 (frame : Nat) : Int := (frame % 2 ^ 31 : Nat)

variable {m : Men} {c : ChanRef} {goodcnt frame wid : Nat}

/-- The lower bits are moved into the window of the latest frame. -/
theorem or_window {img : Nat} (h : img < 2 ^ 31) (latestImage : Nat) :
    img ||| (latestImage - latestImage % (int32Max + 1)) = latestImage / 2 ^ 31 * 2 ^ 31 + img := by
  have hwindow : latestImage - latestImage % (int32Max + 1) = 2 ^ 31 * (latestImage / 2 ^ 31) := by
    have := Nat.div_add_mod latestImage (2 ^ 31)
    unfold int32Max
    omega
  rw [hwindow, Nat.or_comm, ← Nat.two_pow_add_eq_or_of_lt h, Nat.mul_comm]

/-- A frame that is near the latest one is found in its window and in the one behind it. -/
theorem waitFrame_frameindex32 (hframe : frame < 2 ^ 64)
    (hnear : ((frame : Int) - goodcnt).natAbs < 2 ^ 30) (hne : frame % 2 ^ 31 ≠ 0) :
    waitFrame goodcnt (frameindex32 frame) true =
      if goodcnt / 2 ^ 31 ≤ frame / 2 ^ 31 then frame else frame + 2 ^ 31 := by
  have hlt : frame % 2 ^ 31 < 2 ^ 31 := Nat.mod_lt _ (by decide)
  have hpos : ¬ frameindex32 frame ≤ 0 := by
    unfold frameindex32
    omega
  have hnat : (frameindex32 frame).toNat = frame % 2 ^ 31 := Int.toNat_natCast _
  simp only [waitFrame, if_neg hpos, hnat, or_window hlt, if_true]
  unfold int32Max
  split_ifs <;> omega

theorem menWaitDmaimgEnter_eq (m : Men) (c : ChanRef) (img : Int) (is32bit : Bool) (wid : Nat) :
    menWaitDmaimgEnter m c img is32bit wid = waitForFrame m c (waitFrame (m.chan c).goodcnt img is32bit)
      wid :=
  rfl

theorem menCompatIoctlWaitForSubbuf32_eq {dmachan : Nat} (hc : menDmaChannel m dmachan = some c)
    (frame wid : Nat) :
    menCompatIoctlWaitForSubbuf32 m dmachan (frameindex32 frame) wid =
      waitForFrame m c (waitFrame (m.chan c).goodcnt (frameindex32 frame) true) wid := by
  have hmin : ¬ frameindex32 frame < intMin / 2 := by
    unfold frameindex32 intMin
    omega
  simp only [menCompatIoctlWaitForSubbuf32, if_neg hmin, hc, menWaitDmaimgEnter_eq]

/-- A frame that is there is not waited for; the one a window later is. -/
theorem waitForFrame_ne (hle : frame ≤ (m.chan c).goodcnt) (hlt : (m.chan c).goodcnt < frame + 2 ^ 31) :
    waitForFrame m c (frame + 2 ^ 31) wid ≠ waitForFrame m c frame wid := by
  intro h
  have hret := congrArg Prod.snd h
  simp only [waitForFrame, if_pos hle, if_neg (Nat.not_le_of_lt hlt)] at hret
  split_ifs at hret
  simp at hret

/-- The wait of a 32-bit process is the wait for the frame that it means, if and only if the
frame is not in an earlier window than the latest one. -/
theorem frame_window_iff {dmachan : Nat} (hc : menDmaChannel m dmachan = some c)
    (hframe : frame < 2 ^ 64) (hnear : ((frame : Int) - (m.chan c).goodcnt).natAbs < 2 ^ 30)
      (hne : frame % 2 ^ 31 ≠ 0) :
    menCompatIoctlWaitForSubbuf32 m dmachan (frameindex32 frame) wid = waitForFrame m c frame wid ↔
      (m.chan c).goodcnt / 2 ^ 31 ≤ frame / 2 ^ 31 := by
  rw [menCompatIoctlWaitForSubbuf32_eq hc, waitFrame_frameindex32 hframe hnear hne]
  split_ifs with hwindow
  · exact iff_of_true rfl hwindow
  · exact iff_of_false (waitForFrame_ne (by omega) (by omega)) hwindow

/-- A channel that has grabbed five frames behind a window. -/
def grabbedPast : Men :=
  { dmacnt := [1], chan := fun _ => { state := .started, goodcnt := 2 ^ 31 + 5 } }

theorem frame_window_iff_ahead :
    menCompatIoctlWaitForSubbuf32 grabbedPast 0 (frameindex32 (2 ^ 31 + 7)) 1 =
      waitForFrame grabbedPast 0 (2 ^ 31 + 7) 1 :=
  (frame_window_iff rfl (by decide) (by decide) (by decide)).mpr (by decide)

/-- The frame ten numbers back is there, but the process waits for one that is almost a
window ahead. -/
theorem frame_window_missed :
    menCompatIoctlWaitForSubbuf32 grabbedPast 0 (frameindex32 (2 ^ 31 - 5)) 1 ≠
      waitForFrame grabbedPast 0 (2 ^ 31 - 5) 1 := by
  have hframe : waitFrame (grabbedPast.chan 0).goodcnt (frameindex32 (2 ^ 31 - 5)) true =
      2 ^ 31 - 5 + 2 ^ 31 := by
    decide +kernel
  rw [menCompatIoctlWaitForSubbuf32_eq (c := 0) rfl, hframe]
  exact waitForFrame_ne (by decide) (by decide)

end MenableDriver
