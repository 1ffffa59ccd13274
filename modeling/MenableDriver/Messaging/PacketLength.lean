import MenableDriver.Messaging.Chunks

/-!
# The length of a packet

The header of a packet counts itself, and `process_uiq_data` keeps the number of words
behind it in a `uint16_t`. This is right for every length but 0, for which the counter
wraps: the packet then takes 65535 words behind its header.
-/

namespace MenableDriver

set_option autoImplicit false

/-- The words end where the next word is a header. -/
def HeaderNext (ts : UiqTimestamp) (m : Messaging) (before : List Word) : Prop :=
  ∃ t, processTransmissions ts m [[before]] = some t ∧ t.transfer.remainingPacketWords = 0

def acceptsHeader (header : Word) : Prop := header ≠ 0 ∧ header ≠ 0xffffffff#32

/-- The header and `length - 1` words behind it are one packet, however the stream is cut:
the next word is a header behind all of them and not before. -/
def ConsumesPacket (ts : UiqTimestamp) (m : Messaging) (before : List Word) (header : Word) (length : Nat) :
    Prop :=
  ∀ cut words, cut.flatten.flatten = before ++ header :: words → words.length ≤ length - 1 →
    ∃ t, processTransmissions ts m cut = some t ∧
      (t.transfer.remainingPacketWords = 0 ↔ words.length = length - 1)

variable {m m' : Messaging} {ts : UiqTimestamp}

/-- A word of the payload makes the rest of the packet one word shorter. -/
theorem takeWord_counts (ts : UiqTimestamp) (h : m.Ok) (hpos : 0 < m.transfer.remainingPacketWords)
    (w : Word) :
    ∃ t, takeWord ts m w = some t ∧ t.Ok ∧
      t.transfer.remainingPacketWords = m.transfer.remainingPacketWords - 1 := by
  have hcount : ∃ t, takeWord ts m w = some t ∧
      t.transfer.remainingPacketWords = m.transfer.remainingPacketWords - 1 := by
    unfold takeWord
    rw [if_neg (by omega)]
    split
    · exact ⟨_, rfl, rfl⟩
    · rename_i i hi
      obtain ⟨u, hu⟩ := h.current i hi
      simp only [hu, Option.bind_eq_bind, Option.bind_some]
      split_ifs
      · obtain ⟨u', he, _⟩ := popWord_ok h hu w ts
        exact ⟨_, he, rfl⟩
      · obtain ⟨u', he, _⟩ := writePacketDone_ok (countDown_ok h) (i := i) hu
        exact ⟨_, he, rfl⟩
      · exact ⟨_, rfl, rfl⟩
  obtain ⟨t, ht, hrem⟩ := hcount
  obtain ⟨t', ht', hok⟩ := takeWord_ok ts h w
  rw [ht] at ht'
  cases ht'
  exact ⟨t, ht, hok, hrem⟩

theorem payload_counts (ts : UiqTimestamp) (h : m.Ok) {words : List Word}
    (hle : words.length ≤ m.transfer.remainingPacketWords) :
    ∃ t, words.foldlM (takeWord ts) m = some t ∧
      t.transfer.remainingPacketWords = m.transfer.remainingPacketWords - words.length := by
  induction words generalizing m with
  | nil => exact ⟨m, rfl, rfl⟩
  | cons w words ih =>
    rw [List.length_cons] at hle ⊢
    obtain ⟨m₁, he, hok, hrem⟩ := takeWord_counts ts h (by omega) w
    obtain ⟨t, ht, hrem'⟩ := ih hok (by omega)
    refine ⟨t, ?_, by omega⟩
    rw [List.foldlM_cons, he]
    exact ht

theorem irqEventGetPacketLength_lt (header : Word) : irqEventGetPacketLength header < 65536 := by
  have hle : ((header >>> 16) &&& 0xffff#32).toNat ≤ (0xffff#32).toNat := by
    rw [BitVec.toNat_and]
    exact Nat.and_le_right
  exact Nat.lt_succ_of_le hle

theorem takeHeader_remaining {header : Word} (ha : acceptsHeader header) (m : Messaging) :
    (takeHeader m header).transfer.remainingPacketWords = (irqEventGetPacketLength header + 65535)
      % 65536 := by
  rw [takeHeader, if_neg fun h => h.elim ha.1 ha.2]

theorem takesTo_remaining {ws : List Word} {t : Messaging} (ht : TakesTo ts m ws t) :
    ∃ t₀, ws.foldlM (takeWord ts) m = some t₀ ∧
      t.transfer.remainingPacketWords = t₀.transfer.remainingPacketWords := by
  obtain ⟨t₀, he, hb⟩ := ht
  exact ⟨t₀, he, congrArg (·.transfer.remainingPacketWords) hb.symm⟩

/-- The number of words that a packet really takes. -/
theorem consumes_packet (h : m.Ok) {before : List Word} (hnext : HeaderNext ts m before) {header : Word}
    (ha : acceptsHeader header) :
    ConsumesPacket ts m before header ((irqEventGetPacketLength header + 65535) % 65536 + 1) := by
  intro cut words hcut hlen
  rw [Nat.add_sub_cancel] at hlen ⊢
  obtain ⟨s, hs, hzero⟩ := hnext
  obtain ⟨s', hs', hbefore⟩ := transmissions_take ts h [[before]]
  rw [hs] at hs'
  cases hs'
  rw [List.flatten_singleton, List.flatten_singleton] at hbefore
  obtain ⟨s₀, he₀, hrem₀⟩ := takesTo_remaining hbefore
  have hok₀ : s₀.Ok := takesTo_ok h ⟨s₀, he₀, rfl⟩
  -- the header sets the counter, and the words behind it count it down
  have hheader : takeWord ts s₀ header = some (takeHeader s₀ header) := if_pos (hrem₀.symm.trans hzero)
  have hset := takeHeader_remaining ha s₀
  obtain ⟨t₀, hpayload, hrem⟩ := payload_counts ts (takeHeader_ok hok₀ header) (hset ▸ hlen)
  obtain ⟨t, ht, htakes⟩ := transmissions_take ts h cut
  rw [hcut] at htakes
  obtain ⟨t₁, he₁, hrem₁⟩ := takesTo_remaining htakes
  rw [List.foldlM_append, he₀] at he₁
  have hwords : (header :: words).foldlM (takeWord ts) s₀ = some t₁ := he₁
  rw [List.foldlM_cons, hheader] at hwords
  have heq : t₀ = t₁ := Option.some.inj (hpayload.symm.trans hwords)
  refine ⟨t, ht, ?_⟩
  rw [hrem₁, ← heq, hrem, hset]
  omega

/-- A packet takes as many words as its header says if and only if the header does not say 0. -/
theorem packet_length_iff (h : m.Ok) {before : List Word} (hnext : HeaderNext ts m before) {header : Word}
    (ha : acceptsHeader header) :
    ConsumesPacket ts m before header (irqEventGetPacketLength header) ↔
      irqEventGetPacketLength header ≠ 0 := by
  have hlt := irqEventGetPacketLength_lt header
  have hconsumes := consumes_packet h hnext ha
  constructor
  · intro hc hzero
    -- a length of 0 leaves the header alone, but the code counts 65535 words more
    have hcut : [[before ++ [header]]].flatten.flatten = before ++ header :: [] := by simp
    obtain ⟨t, ht, hend⟩ := hc _ [] hcut (Nat.zero_le _)
    obtain ⟨t', ht', hend'⟩ := hconsumes _ [] hcut (Nat.zero_le _)
    rw [ht] at ht'
    cases ht'
    have hrem := hend'.mp (hend.mpr (by rw [hzero]; rfl))
    rw [hzero] at hrem
    simp at hrem
  · intro hne
    have heq : (irqEventGetPacketLength header + 65535) % 65536 + 1 =
      irqEventGetPacketLength header := by omega
    rwa [heq] at hconsumes

theorem oneQueue_headerNext : HeaderNext noTime oneQueue [] := ⟨oneQueue, rfl, rfl⟩

theorem packet_length_iff_three : ConsumesPacket noTime oneQueue [] 0x30005 3 := by
  have ha : acceptsHeader 0x30005 := ⟨by decide, by decide⟩
  exact (packet_length_iff oneQueue_ok oneQueue_headerNext ha).mpr (by decide)

/-- Behind a header with the length 0 the next packet is taken for payload. -/
theorem empty_packet_swallows : ¬ ConsumesPacket noTime oneQueue [] 5 (irqEventGetPacketLength 5) := by
  intro hc
  obtain ⟨t, ht, hend⟩ := hc [[[5]]] [] rfl (Nat.zero_le _)
  have hrem : (processTransmissions noTime oneQueue [[[5]]]).map (·.transfer.remainingPacketWords) =
      some 65535 := by
    decide +kernel
  rw [ht, Option.map_some] at hrem
  have hzero := hend.mpr (by decide)
  rw [hzero] at hrem
  simp at hrem

end MenableDriver
