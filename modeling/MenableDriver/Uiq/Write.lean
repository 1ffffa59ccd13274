import MenableDriver.Helpers.Crc32
import MenableDriver.Uiq.Ring

/-!
# Write queues

`men_uiq_push` takes one burst out of a write queue and writes it to the device. A write
is the register, counted from the data register of the queue, and the value.
-/

namespace MenableDriver

set_option autoImplicit false

def UIQ_CXP_HEADER_TAGGED_PACKET_FLAG : Word := 0x200000#32
def UIQ_CXP_SOP_K_WORD : Word := 0xfbfbfbfb#32
def UIQ_CXP_COMMAND_PACKET : Word := 0x02020202#32
def UIQ_CXP_TAGGED_COMMAND_PACKET : Word := 0x05050505#32
def UIQ_CXP_EOP_K_WORD : Word := 0xfdfdfdfd#32

def cxpHeaderPacketLength (x : Word) : Nat := (x &&& 0xffff#32).toNat

/-- `struct menable_uiq`: the queue, the number of entries that a sleeper waits for, the
completions it was given, and two histories: the words that the device has sent to the
queue and the registers that were written. -/
structure MenableUiq where
  base : UiqBase
  cpltodo : Nat := 0
  cpl : Nat := 0
  delivered : List Word := []
  written : List (Nat × Word) := []

/-- The word `i` places behind the read index. -/
def UiqBase.wordAt (q : UiqBase) (i : Nat) : Word := q.data (Counter.add q.readIndex i % q.capacity)

def uiqWriteToDeviceRaw (q : UiqBase) (writeCount : Nat) : List (Nat × Word) :=
  (List.range writeCount).map fun i => (0, q.wordAt i &&& 0xffff#32)

def uiqWriteToDeviceLegacy (q : UiqBase) (writeCount : Nat) : List (Nat × Word) :=
  if writeCount = 0 then []
  else
    (List.range (writeCount - 1)).map (fun i => (0, q.wordAt i &&& 0xffff#32)) ++
      [(0, (q.wordAt (writeCount - 1) &&& 0xffff#32) ||| UIQ_CONTROL_EOT)]

def uiqWriteToDeviceCxp (q : UiqBase) (writeCount : Nat) : List (Nat × Word) :=
  let header := q.data q.readIndex
  let packetLength := cxpHeaderPacketLength header
  if packetLength < writeCount then
    let packetType := if header &&& UIQ_CXP_HEADER_TAGGED_PACKET_FLAG ≠ 0 then UIQ_CXP_TAGGED_COMMAND_PACKET
      else UIQ_CXP_COMMAND_PACKET
    let words := (List.range packetLength).map fun i => q.wordAt (i + 1)
    let crc := words.foldl (fun crc w => crc32 (wordBytes w) crc) 0xffffffff#32
    [(1, 1), (0, UIQ_CXP_SOP_K_WORD), (1, 0), (0, packetType)] ++ words.map (fun w => (0, w)) ++
      [(0, crc), (1, 1), (0, UIQ_CXP_EOP_K_WORD)]
  else []

/-- A queue without a buffer divides by zero. -/
def menUiqPush (uiq : MenableUiq) : Option (MenableUiq × Bool) :=
  let q := uiq.base
  if q.capacity = 0 then none
  else
    let writeCount := min q.fpgaFifoDepth q.fill
    let writes := match q.type with
      | .read => []
      | .writeRaw => uiqWriteToDeviceRaw q writeCount
      | .writeLegacy => uiqWriteToDeviceLegacy q writeCount
      | .writeCxp => uiqWriteToDeviceCxp q writeCount
    let fill := Counter.sub q.fill writeCount
    let readIndex := Counter.add q.readIndex writeCount % q.capacity
    let cpl := if uiq.cpltodo ≠ 0 ∧ uiq.cpltodo ≤ Counter.sub q.capacity fill then uiq.cpl + 1 else uiq.cpl
    some ({ uiq with
      base := { q with
        readIndex := if fill = 0 then 0 else readIndex
        irqCount := Counter.inc q.irqCount
        fill := fill }
      cpl := cpl
      written := uiq.written ++ writes }, decide (fill = 0))

theorem menUiqPush_ok {uiq : MenableUiq} (h : uiq.base.Ok) (hcap : uiq.base.capacity ≠ 0) :
    ∃ uiq' empty, menUiqPush uiq = some (uiq', empty) ∧ uiq'.base.Ok ∧ uiq'.base.type = uiq.base.type := by
  have hfill := h.fill
  have hlt := h.capacity
  have hsub : Counter.sub uiq.base.fill (min uiq.base.fpgaFifoDepth uiq.base.fill) =
      uiq.base.fill - min uiq.base.fpgaFifoDepth uiq.base.fill :=
    Counter.sub_eq (Nat.min_le_right ..) (by unfold Counter.wrap; omega)
  refine ⟨_, _, if_neg hcap, ⟨hlt, ?_, ?_⟩, rfl⟩
  · dsimp only
    rw [hsub]
    omega
  · dsimp only
    split
    · exact .inr rfl
    · exact .inl (Nat.mod_lt _ (Nat.pos_of_ne_zero hcap))

theorem wordAt_eq {q : UiqBase} (h : q.Ok) {i : Nat} (hi : i ≤ q.fill) : q.wordAt i =
    q.data ((q.readIndex + i) % q.capacity) := by
  have hcap := h.capacity
  have hfill := h.fill
  have hri := h.readIndex
  rw [UiqBase.wordAt, Counter.add_eq (by unfold Counter.wrap; omega)]

/-- The registers that a burst of `writeCount` words writes. -/
def UiqBase.burst (q : UiqBase) (writeCount : Nat) : List (Nat × Word) :=
  match q.type with
  | .read => []
  | .writeRaw => uiqWriteToDeviceRaw q writeCount
  | .writeLegacy => uiqWriteToDeviceLegacy q writeCount
  | .writeCxp => uiqWriteToDeviceCxp q writeCount

/-- A push takes the whole burst out of the queue and leaves the rest of the queue alone. -/
structure TakesBurst (u u' : MenableUiq) : Prop where
  ok : u'.base.Ok
  capacity : u'.base.capacity = u.base.capacity
  type : u'.base.type = u.base.type
  depth : u'.base.fpgaFifoDepth = u.base.fpgaFifoDepth
  running : u'.base.isRunning = u.base.isRunning
  contents : u'.base.contents = u.base.contents.drop (min u.base.fpgaFifoDepth u.base.fill)
  written : u'.written = u.written ++ u.base.burst (min u.base.fpgaFifoDepth u.base.fill)

theorem menUiqPush_takes {u : MenableUiq} (hu : u.base.Ok) (hcap : u.base.capacity ≠ 0) :
    ∃ u' empty, menUiqPush u = some (u', empty) ∧ TakesBurst u u' := by
  obtain ⟨u', empty, he, hok, _⟩ := menUiqPush_ok hu hcap
  refine ⟨u', empty, he, ?_⟩
  have hlt := hu.capacity
  have hfill := hu.fill
  have hri := hu.readIndex
  generalize hm : min u.base.fpgaFifoDepth u.base.fill = m
  have hle : m ≤ u.base.fill := hm ▸ Nat.min_le_right ..
  rw [menUiqPush, if_neg hcap] at he
  simp only [hm] at he
  have hsub : Counter.sub u.base.fill m = u.base.fill - m := Counter.sub_eq hle
    (by unfold Counter.wrap; omega)
  have hadd : Counter.add u.base.readIndex m = u.base.readIndex + m := Counter.add_eq
    (by unfold Counter.wrap; omega)
  cases he
  refine ⟨hok, rfl, rfl, rfl, rfl, ?_, by rw [hm]; rfl⟩
  rw [hm, UiqBase.contents, UiqBase.contents, Ring.drop_window hle]
  dsimp only
  rw [hsub, hadd]
  split_ifs with hempty
  · rw [hempty]
    rfl
  · rw [Ring.window_mod]

end MenableDriver
