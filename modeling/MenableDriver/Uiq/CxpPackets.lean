import MenableDriver.Uiq.Write

/-!
# Packets in a CXP write queue

A write queue of type CXP holds whole packets: a header with the length of the packet and its
words. Every push shall send the packets at the front of the queue that fit into one burst and
keep the others.
-/

namespace MenableDriver

set_option autoImplicit false

structure CxpPacket where
  header : Word
  payload : List Word
  length_eq : payload.length = cxpHeaderPacketLength header

namespace CxpPacket

/-- What the user writes to the queue. -/
def words (p : CxpPacket) : List Word := p.header :: p.payload

def packetType (p : CxpPacket) : Word :=
  if p.header &&& UIQ_CXP_HEADER_TAGGED_PACKET_FLAG ≠ 0 then UIQ_CXP_TAGGED_COMMAND_PACKET
  else UIQ_CXP_COMMAND_PACKET

/-- What the device shall get: the packet in its frame, with the CRC of its bytes. -/
def frame (p : CxpPacket) : List (Nat × Word) :=
  [(1, 1), (0, UIQ_CXP_SOP_K_WORD), (1, 0), (0, p.packetType)] ++ p.payload.map (fun w => (0, w)) ++
    [(0, crc32 (p.payload.flatMap wordBytes) 0xffffffff#32), (1, 1), (0, UIQ_CXP_EOP_K_WORD)]

end CxpPacket

/-- `men_uiq_init` takes the burst of a declaration as an `unsigned char`. -/
def uiqBurst (writeBurst : UInt16) : Nat := writeBurst.toUInt8.toNat

/-- A write queue that `men_uiq_init` has made for a declaration with this burst, with whole
packets in it that fit into the FIFO of the declaration. -/
structure CxpQueue (writeBurst : UInt16) where
  uiq : MenableUiq
  packets : List CxpPacket
  ok : uiq.base.Ok
  capacity : uiq.base.capacity ≠ 0
  type : uiq.base.type = .writeCxp
  depth : uiq.base.fpgaFifoDepth = uiqBurst writeBurst
  contents : uiq.base.contents = packets.flatMap CxpPacket.words
  fits : ∀ p ∈ packets, p.words.length ≤ writeBurst.toNat

def pushes : Nat → MenableUiq → Option MenableUiq
  | 0, u => some u
  | n + 1, u => do
    let (u, _) ← menUiqPush u
    pushes n u

/-- After any number of pushes the packets at the front were sent, each in its frame, one at
least with every push, and the others are in the queue as they were. -/
def DeliversIntact {writeBurst : UInt16} (c : CxpQueue writeBurst) : Prop :=
  ∀ n, ∃ u j, pushes n c.uiq = some u ∧ min n c.packets.length ≤ j ∧
    u.written = c.uiq.written ++ (c.packets.take j).flatMap CxpPacket.frame ∧
    u.base.contents = (c.packets.drop j).flatMap CxpPacket.words

/-- Every burst is one packet: each packet but the last one has the length of a burst. -/
def BurstPerPacket (burst : Nat) (packets : List CxpPacket) : Prop :=
  (∀ p ∈ packets.dropLast, p.words.length = burst) ∧ ∀ p ∈ packets.getLast?, p.words.length ≤ burst

section Burst
variable {q : UiqBase} {p : CxpPacket} {rest : List Word} {w : Nat}

theorem foldl_crc32 (words : List Word) (seed : BitVec 32) :
    words.foldl (fun crc w => crc32 (wordBytes w) crc) seed = crc32 (words.flatMap wordBytes) seed := by
  have hchunks := foldl_crc32_chunks (words.map wordBytes) seed
  rw [List.foldl_map, ← List.flatMap_def] at hchunks
  exact hchunks

/-- The words behind the header at the read index. -/
def UiqBase.packetWords (q : UiqBase) : List Word :=
  (List.range (cxpHeaderPacketLength (q.data q.readIndex))).map fun i => q.wordAt (i + 1)

/-- What is sent behind the words is their CRC. -/
theorem uiqWriteToDeviceCxp_crc (q : UiqBase) (w : Nat) :
    (uiqWriteToDeviceCxp q w)[4 + q.packetWords.length]? =
      if q.packetWords.length < w then some (0, crc32 (q.packetWords.flatMap wordBytes) 0xffffffff#32)
      else none := by
  have hlength : q.packetWords.length = cxpHeaderPacketLength (q.data q.readIndex) := by
    rw [UiqBase.packetWords, List.length_map, List.length_range]
  have hwords : (List.range (cxpHeaderPacketLength (q.data q.readIndex))).map (fun i => q.wordAt (i + 1)) =
      q.packetWords := rfl
  unfold uiqWriteToDeviceCxp
  dsimp only
  rw [hwords, ← hlength, foldl_crc32]
  by_cases hfit : q.packetWords.length < w
  · have hsent : ∀ front : List (Nat × Word), front.length = 4 →
        (front ++ q.packetWords.map (fun w => (0, w))).length = 4 + q.packetWords.length := by
      intro front hfront
      rw [List.length_append, List.length_map, hfront]
    rw [if_pos hfit, if_pos hfit, List.getElem?_append_right (Nat.le_of_eq (hsent _ rfl)), hsent _ rfl,
      Nat.sub_self]
    rfl
  · rw [if_neg hfit, if_neg hfit]
    rfl

/-- The CRC of the table is the one of the polynomial, chunks may follow one another, and the
CRC of a CXP packet is the one of all its bytes. -/
theorem crc32_bitwise_in_chunks :
    (∀ data seed, crc32 data seed = bitwiseCrc32 data seed) ∧
      (∀ (chunks : List (List (BitVec 8))) seed,
        chunks.foldl (fun crc chunk => crc32 chunk crc) seed = crc32 chunks.flatten seed) ∧
        ∀ (q : UiqBase) (w : Nat), (uiqWriteToDeviceCxp q w)[4 + q.packetWords.length]? =
          if q.packetWords.length < w then
            some (0, bitwiseCrc32 (q.packetWords.flatMap wordBytes) 0xffffffff#32)
          else none := by
  refine ⟨crc32_eq_bitwiseCrc32, foldl_crc32_chunks, fun q w => ?_⟩
  rw [uiqWriteToDeviceCxp_crc, crc32_eq_bitwiseCrc32]

theorem readIndex_mod (h : q.Ok) : q.readIndex % q.capacity = q.readIndex := by
  rcases h.readIndex with hlt | h0
  · exact Nat.mod_eq_of_lt hlt
  · rw [h0, Nat.zero_mod]

theorem contents_cons (h : q.Ok) (hfill : q.fill ≠ 0) :
    q.contents = q.data q.readIndex :: Ring.window q.data q.capacity (q.readIndex + 1) (q.fill - 1) := by
  obtain ⟨n, hn⟩ := Nat.exists_eq_succ_of_ne_zero hfill
  rw [UiqBase.contents, hn, Ring.window_cons, readIndex_mod h, Nat.succ_sub_one]

/-- The burst sends the first packet if it is in it, and nothing else. -/
theorem uiqWriteToDeviceCxp_eq (h : q.Ok) (hc : q.contents = p.words ++ rest) (hw : w ≤ q.fill) :
    uiqWriteToDeviceCxp q w = if p.payload.length < w then p.frame else [] := by
  have hlen : q.fill = p.payload.length + 1 + rest.length := by
    rw [← q.length_contents, hc]
    simp only [CxpPacket.words, List.length_append, List.length_cons]
  have hcons := contents_cons h (by omega)
  rw [hc, CxpPacket.words, List.cons_append] at hcons
  obtain ⟨hheader, htail⟩ := List.cons.inj hcons
  unfold uiqWriteToDeviceCxp
  dsimp only
  rw [← hheader, ← p.length_eq]
  by_cases hfit : p.payload.length < w
  · rw [if_pos hfit, if_pos hfit]
    have hpayload : (List.range p.payload.length).map (fun i => q.wordAt (i + 1)) = p.payload := by
      calc (List.range p.payload.length).map (fun i => q.wordAt (i + 1))
          = Ring.window q.data q.capacity (q.readIndex + 1) p.payload.length := by
            refine List.map_congr_left fun i hi => ?_
            have hlt := List.mem_range.mp hi
            rw [wordAt_eq h (by omega), Nat.add_assoc, Nat.add_comm 1 i]
        _ = (p.payload ++ rest).take p.payload.length := by
            rw [htail, Ring.take_window (by omega)]
        _ = p.payload := List.take_left
    rw [hpayload, foldl_crc32]
    rfl
  · rw [if_neg hfit, if_neg hfit]

/-- A push takes the whole burst out of the queue. -/
theorem menUiqPush_burst {u : MenableUiq} (hu : u.base.Ok) (hcap : u.base.capacity ≠ 0)
    (htype : u.base.type = .writeCxp) :
    ∃ u' empty, menUiqPush u = some (u', empty) ∧ u'.base.Ok ∧ u'.base.capacity = u.base.capacity ∧
      u'.base.type = .writeCxp ∧ u'.base.fpgaFifoDepth = u.base.fpgaFifoDepth ∧
      u'.base.contents = u.base.contents.drop (min u.base.fpgaFifoDepth u.base.fill) ∧
      u'.written = u.written ++ uiqWriteToDeviceCxp u.base (min u.base.fpgaFifoDepth u.base.fill) := by
  obtain ⟨u', empty, he, ht⟩ := menUiqPush_takes hu hcap
  refine ⟨u', empty, he, ht.ok, ht.capacity, ht.type.trans htype, ht.depth, ht.contents, ?_⟩
  have hburst : ∀ n, u.base.burst n = uiqWriteToDeviceCxp u.base n := fun n => by
    rw [UiqBase.burst, htype]
  rw [ht.written, hburst]

end Burst

section Queue
variable {writeBurst : UInt16} {c : CxpQueue writeBurst}

theorem CxpPacket.frame_ne_nil (p : CxpPacket) : p.frame ≠ [] := by
  simp [CxpPacket.frame]

/-- A push that sends one packet leaves a queue with the others. -/
theorem push_packet {p : CxpPacket} {ps : List CxpPacket} (hp : c.packets = p :: ps)
    (hburst : min (uiqBurst writeBurst) c.uiq.base.fill = p.words.length) :
    ∃ (c' : CxpQueue writeBurst) (empty : Bool), menUiqPush c.uiq = some (c'.uiq, empty) ∧ c'.packets = ps ∧
      c'.uiq.written = c.uiq.written ++ p.frame := by
  have hc : c.uiq.base.contents = p.words ++ ps.flatMap CxpPacket.words := by
    rw [c.contents, hp, List.flatMap_cons]
  obtain ⟨u, empty, he, hok, hcap, htype, hdepth, hcontents, hwritten⟩ := menUiqPush_burst c.ok
    c.capacity c.type
  rw [c.depth, hburst] at hcontents hwritten
  rw [uiqWriteToDeviceCxp_eq c.ok hc (hburst ▸ Nat.min_le_right ..),
    if_pos (by simp only [CxpPacket.words, List.length_cons]; omega)] at hwritten
  refine ⟨⟨u, ps, hok, hcap.trans_ne c.capacity, htype, hdepth.trans c.depth, ?_, fun p' hp' => c.fits p' ?_⟩, empty, he,
    rfl, hwritten⟩
  · rw [hcontents, hc, List.drop_left]
  · rw [hp]
    exact List.mem_cons_of_mem _ hp'

/-- A push that leaves the other packets alone sends exactly the first one. -/
theorem push_intact {p : CxpPacket} {ps : List CxpPacket} (hp : c.packets = p :: ps)
    {u : MenableUiq} {j : Nat}
    (hu : pushes 1 c.uiq = some u) (hj : 1 ≤ j)
    (hwritten : u.written = c.uiq.written ++ (c.packets.take j).flatMap CxpPacket.frame)
    (hcontents : u.base.contents = (c.packets.drop j).flatMap CxpPacket.words) :
    min (uiqBurst writeBurst) c.uiq.base.fill = p.words.length := by
  have hc : c.uiq.base.contents = p.words ++ ps.flatMap CxpPacket.words := by
    rw [c.contents, hp, List.flatMap_cons]
  obtain ⟨j, rfl⟩ : ∃ i, j = i + 1 := ⟨j - 1, by omega⟩
  obtain ⟨u', empty, he, _, _, _, _, hcontents', hwritten'⟩ := menUiqPush_burst c.ok c.capacity c.type
  obtain rfl : u' = u := by
    rw [pushes, he] at hu
    exact Option.some.inj hu
  generalize hm : min (uiqBurst writeBurst) c.uiq.base.fill = m
  have hle : m ≤ c.uiq.base.fill := hm ▸ Nat.min_le_right ..
  rw [c.depth, hm] at hcontents' hwritten'
  rw [hwritten', uiqWriteToDeviceCxp_eq c.ok hc hle, hp, List.take_succ_cons, List.flatMap_cons,
    List.append_cancel_left_eq] at hwritten
  rw [hcontents', hc, hp, List.drop_succ_cons] at hcontents
  split_ifs at hwritten with hfit
  · -- only the first packet was sent, so the others are those that follow it
    have hrest : (ps.take j).flatMap CxpPacket.frame = [] :=
      List.append_right_eq_self.mp hwritten.symm
    have hps : ps.drop j = ps := by
      cases ps with
      | nil => exact List.drop_nil
      | cons p' ps =>
        cases j with
        | zero => rfl
        | succ j => exact absurd (List.append_eq_nil_iff.mp hrest).1 p'.frame_ne_nil
    have hlen := congrArg List.length hcontents
    have hfill : c.uiq.base.fill = (p.words ++ ps.flatMap CxpPacket.words).length := by
      rw [← hc, c.uiq.base.length_contents]
    rw [hps, List.length_drop] at hlen
    rw [List.length_append] at hlen hfill
    omega
  · exact absurd (List.append_eq_nil_iff.mp hwritten.symm).1 p.frame_ne_nil

theorem burstPerPacket_cons (burst : Nat) (p : CxpPacket) (ps : List CxpPacket) :
    BurstPerPacket burst (p :: ps) ↔
      min burst ((p :: ps).flatMap CxpPacket.words).length = p.words.length ∧ BurstPerPacket burst ps := by
  rw [List.flatMap_cons, List.length_append]
  cases ps with
  | nil =>
    simp only [BurstPerPacket, List.dropLast_singleton, List.dropLast_nil, List.getLast?_singleton,
      List.getLast?_nil, List.not_mem_nil, Option.mem_def, Option.some.injEq, List.flatMap_nil,
        List.length_nil]
    simp
  | cons p' ps =>
    have hpos : 0 < ((p' :: ps).flatMap CxpPacket.words).length := by
      rw [List.flatMap_cons, List.length_append, CxpPacket.words, List.length_cons]
      omega
    have hmin : min burst (p.words.length + ((p' :: ps).flatMap CxpPacket.words).length) = p.words.length ↔
        p.words.length = burst := by omega
    rw [hmin]
    simp only [BurstPerPacket, List.dropLast_cons_cons, List.forall_mem_cons, List.getLast?_cons_cons,
      and_assoc]

theorem push_empty (h : c.packets = []) :
    ∃ (c' : CxpQueue writeBurst) (empty : Bool), menUiqPush c.uiq = some (c'.uiq, empty) ∧ c'.packets = [] ∧
      c'.uiq.written = c.uiq.written := by
  have hnil : c.uiq.base.contents = [] := by
    rw [c.contents, h]
    rfl
  have hfill : c.uiq.base.fill = 0 := by
    rw [← c.uiq.base.length_contents, hnil]
    rfl
  obtain ⟨u, empty, he, hok, hcap, htype, hdepth, hcontents, hwritten⟩ := menUiqPush_burst c.ok
    c.capacity c.type
  rw [hnil, List.drop_nil] at hcontents
  rw [hfill, Nat.min_zero] at hwritten
  refine ⟨⟨u, [], hok, hcap.trans_ne c.capacity, htype, hdepth.trans c.depth, hcontents, fun p hp => ?_⟩,
    empty, he, rfl,
    hwritten.trans (List.append_nil _)⟩
  cases hp

theorem deliversIntact_nil (h : c.packets = []) : DeliversIntact c := by
  intro n
  induction n generalizing c with
  | zero => exact ⟨c.uiq, 0, rfl, Nat.zero_le _, (List.append_nil _).symm, c.contents⟩
  | succ n ih =>
    obtain ⟨c', empty, he, h', hwritten⟩ := push_empty h
    obtain ⟨u, j, hu, hj, hw, hc⟩ := ih h'
    rw [h'] at hw hc hj
    rw [h]
    refine ⟨u, j, ?_, Nat.le_trans (Nat.min_le_right ..) (Nat.zero_le j), hwritten ▸ hw, hc⟩
    rw [pushes, he]
    exact hu

/-- The packets behind the first one are delivered from the queue that the first push leaves. -/
theorem deliversIntact_cons {c' : CxpQueue writeBurst} {p : CxpPacket} {ps : List CxpPacket} {empty : Bool}
    (hp : c.packets = p :: ps) (he : menUiqPush c.uiq = some (c'.uiq, empty)) (hp' : c'.packets = ps)
    (hwritten : c'.uiq.written = c.uiq.written ++ p.frame) : DeliversIntact c ↔ DeliversIntact c' := by
  have hpush : ∀ n, pushes (n + 1) c.uiq = pushes n c'.uiq := fun n => by
    rw [pushes, he]
    rfl
  constructor
  · intro h n
    obtain ⟨u, j, hu, hj, hw, hcont⟩ := h (n + 1)
    rw [hp, List.length_cons] at hj
    obtain ⟨j, rfl⟩ : ∃ i, j = i + 1 := ⟨j - 1, by omega⟩
    rw [hp, List.take_succ_cons, List.flatMap_cons, ← List.append_assoc, ← hwritten, ← hp'] at hw
    rw [hp, List.drop_succ_cons, ← hp'] at hcont
    exact ⟨u, j, hpush n ▸ hu, by rw [hp']; omega, hw, hcont⟩
  · intro h n
    cases n with
    | zero => exact ⟨c.uiq, 0, rfl, by omega, (List.append_nil _).symm, c.contents⟩
    | succ n =>
      obtain ⟨u, j, hu, hj, hw, hcont⟩ := h n
      rw [hp'] at hj hw hcont
      refine ⟨u, j + 1, (hpush n).trans hu, by rw [hp, List.length_cons]; omega, ?_, ?_⟩
      · rw [hp, List.take_succ_cons, List.flatMap_cons, ← List.append_assoc, ← hwritten]
        exact hw
      · rw [hp, List.drop_succ_cons]
        exact hcont

/-- A queue delivers its packets intact exactly if each burst of the truncated depth is one
packet. -/
theorem cxp_packets_intact_iff (c : CxpQueue writeBurst) :
    DeliversIntact c ↔ BurstPerPacket (uiqBurst writeBurst) c.packets := by
  generalize hps : c.packets = ps
  induction ps generalizing c with
  | nil =>
    refine iff_of_true (deliversIntact_nil hps) ⟨fun p hp => (by cases hp), fun p hp => (by cases hp)⟩
  | cons p ps ih =>
    have hfill : ((p :: ps).flatMap CxpPacket.words).length = c.uiq.base.fill := by
      rw [← hps, ← c.contents, c.uiq.base.length_contents]
    rw [burstPerPacket_cons, hfill]
    by_cases hburst : min (uiqBurst writeBurst) c.uiq.base.fill = p.words.length
    · obtain ⟨c', empty, he, hp', hwritten⟩ := push_packet hps hburst
      rw [deliversIntact_cons hps he hp' hwritten, ih c' hp']
      exact (and_iff_right hburst).symm
    · refine iff_of_false (fun h => ?_) fun h => hburst h.1
      obtain ⟨u, j, hu, hj, hw, hcont⟩ := h 1
      rw [hps, List.length_cons] at hj
      exact hburst (push_intact hps hu (by omega) hw hcont)

end Queue

section Example

def commandPacket (w : Word) : CxpPacket := ⟨1#32, [w], rfl⟩

/-- Two packets of two words in a queue with the burst of the impulse boards. -/
def twoPackets : CxpQueue 508 where
  uiq.base :=
    { type := .writeCxp
      capacity := 4
      fill := 4
      data := fun i => ([1, 5, 1, 5] : List Word).getD i 0
      fpgaFifoDepth := 252 }
  packets := [commandPacket 5#32, commandPacket 5#32]
  ok := ⟨by decide, by decide, .inr rfl⟩
  capacity := by decide
  type := rfl
  depth := by decide
  contents := by decide
  fits := by decide

/-- The first push takes both packets out of the queue and sends one of them. -/
theorem second_packet_lost : ¬ DeliversIntact twoPackets := by
  intro h
  obtain ⟨u, j, hu, hj, hwritten, hcontents⟩ := h 1
  have hpackets : twoPackets.packets = [commandPacket 5#32, commandPacket 5#32] := rfl
  have hlen := push_intact hpackets hu (by simpa [hpackets] using hj) hwritten hcontents
  exact absurd hlen (by decide)

end Example

end MenableDriver
