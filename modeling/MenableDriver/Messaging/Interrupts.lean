import MenableDriver.Messaging.Chunks
import MenableDriver.Messaging.Transmission

/-!
# The messaging interrupts

An interrupt of the messaging DMA announces a number of transmissions. `me6_messaging_irq`
fetches them one by one from the ring of pages, hands the words of each to
`process_uiq_data` and acknowledges the interrupt. A packet may begin in one transmission and
end in another one, behind the next interrupt or behind the end of the ring.
-/

namespace MenableDriver

set_option autoImplicit false

def messagingCountHasOverflow (x : Word) : Bool := x &&& 0x1#32 == 0x1#32

def messagingGetCount (x : Word) : Nat := ((x >>> 1) &&& 0x1ffff#32).toNat

/-- The registers and the pages as the interrupt finds them. The device writes on while the
interrupt is served, so every fetch has its own pages. -/
structure MessagingIrq where
  pending : Word
  fetch : Nat → ReadCall
  ts : UiqTimestamp

/-- The controller, the queues, and the number of writes to `ME6_REG_IRQ_MESSAGING_PROCESSED`. -/
structure MessagingBoard where
  ctrl : MessagingDmaController
  queues : Messaging
  processed : Nat := 0

/-- A transmission that cannot be fetched is left out. A pointer behind its page is followed
into other memory. -/
def fetchAndProcess (ts : UiqTimestamp) (b : MessagingBoard) (call : ReadCall) : Option MessagingBoard :=
  match getNextTransmission b.ctrl call.mem call.isEnabledAndRunning with
  | (.error _, ctrl) => some { b with ctrl := ctrl }
  | (.ok info, ctrl) =>
    if info.index + info.numWords ≤ WORDS_PER_PAGE then do
      let queues ← processTransmission ts b.queues [info.words call.mem]
      some { b with ctrl := ctrl, queues := queues }
    else none

/-- The fetches of an interrupt; a counter that has overflown says nothing. -/
def MessagingIrq.fetches (irq : MessagingIrq) : List ReadCall :=
  if messagingCountHasOverflow irq.pending then []
  else (List.range (messagingGetCount irq.pending)).map irq.fetch

def me6MessagingIrq (b : MessagingBoard) (irq : MessagingIrq) : Option MessagingBoard := do
  let b ← irq.fetches.foldlM (fetchAndProcess irq.ts) b
  some { b with processed := b.processed + 1 }

/-! ### What the interrupts find -/

/-- A fetch that fails: the engine is off, or no transmission starts at the offset, or the one
there does not end in its page. -/
def Refuses (c : MessagingDmaController) (call : ReadCall) : Prop :=
  call.isEnabledAndRunning = false ∨ c.bufReadOffset = WORDS_PER_PAGE - 1 ∨ c.transmissionLength call.mem = 0 ∨
    (WORDS_PER_PAGE < c.bufReadOffset + c.transmissionLength call.mem ∧
      c.bufReadOffset + c.transmissionLength call.mem < Counter.wrap)

/-- The fetches find these transmissions one behind the other in the ring, and some of them none. -/
inductive Fetched : MessagingDmaController → List ReadCall → List (List Word) → MessagingDmaController → Prop
  | done (c : MessagingDmaController) : Fetched c [] [] c
  | refused {c c' : MessagingDmaController} {call : ReadCall} {calls : List ReadCall} {found : List (List Word)}
      (hr : Refuses c call) (hrest : Fetched c calls found c') : Fetched c (call :: calls) found c'
  | accepted {c c' : MessagingDmaController} {call : ReadCall} {calls : List ReadCall} {found : List (List Word)}
      (hrun : call.isEnabledAndRunning = true) (hw : WellFormed c call.mem)
      (hpage : c.bufReadOffset + c.transmissionLength call.mem ≤ WORDS_PER_PAGE)
      (hrest : Fetched (skipTransmission c (c.transmissionLength call.mem)) calls found c') :
      Fetched c (call :: calls) (payload c call.mem :: found) c'

/-- The same for a list of interrupts; the words keep the time of their interrupt. -/
inductive FetchedBy : MessagingDmaController → List MessagingIrq → List (UiqTimestamp × List Word) →
    MessagingDmaController → Prop
  | done (c : MessagingDmaController) : FetchedBy c [] [] c
  | irq {c c₁ c' : MessagingDmaController} {irq : MessagingIrq} {irqs : List MessagingIrq}
      {found : List (List Word)} {stream : List (UiqTimestamp × List Word)}
      (hfirst : Fetched c irq.fetches found c₁) (hrest : FetchedBy c₁ irqs stream c') :
      FetchedBy c (irq :: irqs) ((irq.ts, found.flatten) :: stream) c'

/-- A packet for the queue with this id. Its length fits the header, and the header is not the
one that means no packet. -/
structure EventPacket where
  id : BitVec 16
  data : List Word
  short : data.length + 1 < 65536
  notInvalid : data.length + 1 = 65535 → id ≠ 0xffff#16

/-- The header counts itself. -/
def EventPacket.header (p : EventPacket) : Word := BitVec.ofNat 16 (p.data.length + 1) ++ p.id

def EventPacket.words (p : EventPacket) : List Word := p.header :: p.data

/-- What the packets bring to the queue `i`. Only a read queue takes data. -/
def broughtTo (m : Messaging) (packets : List EventPacket) (i : Nat) : List Word :=
  if (m.uiqs i).map (·.base.type) = some .read then
    (packets.filter fun p => findUiq m p.id.toNat = some i).flatMap EventPacket.data
  else []

variable {m m' n : Messaging} {ts : UiqTimestamp} {c c' : MessagingDmaController} {b : MessagingBoard}

/-! ### The transmissions as words -/

theorem getNextTransmission_refused (hc : c.Valid) {call : ReadCall} (hr : Refuses c call) :
    ∃ e, getNextTransmission c call.mem call.isEnabledAndRunning = (.error e, c) := by
  have hid := bufId_lt hc
  unfold getNextTransmission
  dsimp only
  split_ifs with hrun hbuf hlast hzero hcross
  · exact ⟨_, rfl⟩
  · exact ⟨_, rfl⟩
  · exact ⟨_, rfl⟩
  · exact ⟨_, rfl⟩
  · exact ⟨_, rfl⟩
  all_goals
    exfalso
    rcases hr with hoff | hend | hnone | ⟨hlong, hwrap⟩
    · exact hrun hoff
    · exact hlast hend
    · exact hzero hnone
    · rw [Counter.add_eq hwrap] at hcross
      exact hcross hlong

theorem skipTransmission_valid (hc : c.Valid) (size : Nat) : (skipTransmission c size).Valid := by
  refine ⟨hc.pos, hc.lt, ?_⟩
  unfold skipTransmission
  dsimp only
  split
  · exact readOffset_lt hc _
  · exact readOffset_lt hc _

theorem fetchAndProcess_accepted (hc : b.ctrl.Valid) (hok : b.queues.Ok) {call : ReadCall}
    (hrun : call.isEnabledAndRunning = true) (hw : WellFormed b.ctrl call.mem)
    (hpage : b.ctrl.bufReadOffset + b.ctrl.transmissionLength call.mem ≤ WORDS_PER_PAGE) :
    ∃ queues, fetchAndProcess ts b call =
        some { b with ctrl := skipTransmission b.ctrl (b.ctrl.transmissionLength call.mem), queues := queues } ∧
      TakesTo ts b.queues (payload b.ctrl call.mem) queues := by
  obtain ⟨queues, hqueues, htakes⟩ := transmissions_take ts hok [[payload b.ctrl call.mem]]
  have hone : processTransmission ts b.queues [payload b.ctrl call.mem] = some queues := by
    simpa only [processTransmissions, List.foldlM_cons, List.foldlM_nil, bind_pure] using hqueues
  refine ⟨queues, ?_, by simpa using htakes⟩
  have hlen := hw.one_le
  have hinside : b.ctrl.bufReadOffset + 1 + (b.ctrl.transmissionLength call.mem - 1) ≤ WORDS_PER_PAGE := by omega
  simp only [fetchAndProcess, hrun, getNextTransmission_eq hc hw hpage, if_pos hinside, words_eq_payload hc hpage,
    hone, Option.bind_eq_bind, Option.bind_some]

theorem fetched_process {calls : List ReadCall} {found : List (List Word)} (hf : Fetched c calls found c')
    (hctrl : b.ctrl = c) (hc : c.Valid) (hok : b.queues.Ok) :
    ∃ queues, calls.foldlM (fetchAndProcess ts) b = some { b with ctrl := c', queues := queues } ∧
      TakesTo ts b.queues found.flatten queues ∧ c'.Valid := by
  induction hf generalizing b with
  | done c =>
    subst hctrl
    exact ⟨b.queues, rfl, .refl rfl, hc⟩
  | refused hr _ ih =>
    subst hctrl
    obtain ⟨e, he⟩ := getNextTransmission_refused hc hr
    obtain ⟨queues, hrun, htakes, hc'⟩ := ih rfl hc hok
    refine ⟨queues, ?_, htakes, hc'⟩
    rw [List.foldlM_cons, fetchAndProcess, he]
    exact hrun
  | accepted hrun hw hpage _ ih =>
    subst hctrl
    obtain ⟨queues₁, hfirst, htakes₁⟩ := @fetchAndProcess_accepted ts b hc hok _ hrun hw hpage
    obtain ⟨queues, hrest, htakes, hc'⟩ := @ih { b with ctrl := _, queues := queues₁ } rfl
      (skipTransmission_valid hc _) (takesTo_ok hok htakes₁)
    refine ⟨queues, ?_, ?_, hc'⟩
    · rw [List.foldlM_cons, hfirst]
      exact hrest
    · rw [List.flatten_cons]
      exact TakesTo.trans hok htakes₁ htakes

/-! ### The words with their times -/

def takeStamped (m : Messaging) (w : UiqTimestamp × Word) : Option Messaging := takeWord w.1 m w.2

def stamped (stream : List (UiqTimestamp × List Word)) : List (UiqTimestamp × Word) :=
  stream.flatMap fun p => p.2.map (p.1, ·)

theorem stamped_words (stream : List (UiqTimestamp × List Word)) :
    (stamped stream).map Prod.snd = (stream.map Prod.snd).flatten := by
  rw [stamped, List.map_flatMap, List.flatten_eq_flatMap, List.flatMap_map]
  simp

theorem foldlM_stamped (ws : List Word) (m : Messaging) :
    (ws.map (ts, ·)).foldlM takeStamped m = ws.foldlM (takeWord ts) m := by
  rw [List.foldlM_map]
  rfl

/-- The words of several interrupts take the first state to one like the second. -/
def StreamTakes (m : Messaging) (ws : List (UiqTimestamp × Word)) (m' : Messaging) : Prop :=
  ∃ t, ws.foldlM takeStamped m = some t ∧ t.bare = m'.bare

theorem StreamTakes.alike (h : m.Ok) (hb : m.bare = n.bare) {ws : List (UiqTimestamp × Word)}
    (ht : StreamTakes n ws m') : StreamTakes m ws m' := by
  obtain ⟨t, he, hbt⟩ := ht
  induction ws generalizing m n with
  | nil =>
    cases he
    exact ⟨m, rfl, hb.trans hbt⟩
  | cons w ws ih =>
    obtain ⟨t₁, ht₁, hok₁⟩ := takeWord_ok w.1 h w.2
    obtain ⟨n₁, hn₁, hb₁⟩ := takeWord_alike h hb ht₁
    have hstep : takeStamped n w = some n₁ := hn₁
    rw [List.foldlM_cons, hstep] at he
    obtain ⟨t', he', hb'⟩ := ih hok₁ hb₁ he
    refine ⟨t', ?_, hb'⟩
    have hstep' : takeStamped m w = some t₁ := ht₁
    rw [List.foldlM_cons, hstep']
    exact he'

theorem messagingIrqs_process {irqs : List MessagingIrq} {stream : List (UiqTimestamp × List Word)}
    (hf : FetchedBy c irqs stream c') (hctrl : b.ctrl = c) (hc : c.Valid) (hok : b.queues.Ok) :
    ∃ b', irqs.foldlM me6MessagingIrq b = some b' ∧ b'.ctrl = c' ∧ b'.processed = b.processed + irqs.length ∧
      StreamTakes b.queues (stamped stream) b'.queues := by
  induction hf generalizing b with
  | done c => exact ⟨b, rfl, hctrl, rfl, b.queues, rfl, rfl⟩
  | @irq c c₁ c' irq irqs found stream hfirst _ ih =>
    obtain ⟨queues, hrun, htakes, hc₁⟩ := fetched_process hfirst hctrl hc hok
    obtain ⟨b', hrest, hctrl', hcount, hstream⟩ :=
      @ih { b with ctrl := c₁, queues := queues, processed := b.processed + 1 } rfl hc₁ (takesTo_ok hok htakes)
    refine ⟨b', ?_, hctrl', ?_, ?_⟩
    · rw [List.foldlM_cons, me6MessagingIrq, hrun]
      exact hrest
    · rw [hcount, List.length_cons, Nat.add_comm irqs.length, ← Nat.add_assoc]
    · obtain ⟨t, ht, hbt⟩ := htakes
      obtain ⟨t', ht', hbt'⟩ := StreamTakes.alike (takesTo_ok hok ⟨t, ht, rfl⟩) hbt hstream
      refine ⟨t', ?_, hbt'⟩
      have hsplit : stamped ((irq.ts, found.flatten) :: stream) =
          found.flatten.map (irq.ts, ·) ++ stamped stream := rfl
      rw [hsplit, List.foldlM_append, foldlM_stamped, ht]
      exact ht'

/-! ### The words as packets -/

theorem header_length (p : EventPacket) : irqEventGetPacketLength p.header = p.data.length + 1 := by
  have hshort := p.short
  have hshift : (p.header >>> 16) &&& 0xffff#32 = BitVec.ofNat 32 (p.data.length + 1) := by
    apply BitVec.eq_of_toNat_eq
    have hmask : (0xffff#32).toNat = 2 ^ 16 - 1 := rfl
    have hid := p.id.isLt
    simp only [EventPacket.header, BitVec.toNat_and, BitVec.toNat_ushiftRight, BitVec.toNat_append, hmask,
      Nat.and_two_pow_sub_one_eq_mod, Nat.shiftRight_or_distrib, Nat.shiftLeft_shiftRight, BitVec.toNat_ofNat,
      Nat.shiftRight_eq_zero _ _ hid, Nat.or_zero]
    omega
  rw [irqEventGetPacketLength, hshift, BitVec.toNat_ofNat]
  omega

theorem header_id (p : EventPacket) : irqEventGetPacketId p.header = p.id.toNat := by
  have hid := p.id.isLt
  have hmask : (0xffff#32).toNat = 2 ^ 16 - 1 := rfl
  simp only [irqEventGetPacketId, EventPacket.header, BitVec.toNat_and, BitVec.toNat_append, hmask,
    Nat.and_two_pow_sub_one_eq_mod, Nat.or_mod_two_pow, Nat.shiftLeft_eq, Nat.mul_mod_left, Nat.zero_or]
  omega

theorem header_accepted (p : EventPacket) : ¬ (p.header = 0 ∨ p.header = 0xffffffff#32) := by
  have hlen := header_length p
  rintro (h | h)
  · rw [h] at hlen
    have hzero : irqEventGetPacketLength 0 = 0 := rfl
    omega
  · have hid := header_id p
    rw [h] at hlen hid
    have hones : irqEventGetPacketLength 0xffffffff#32 = 65535 := rfl
    have honesId : irqEventGetPacketId 0xffffffff#32 = (0xffff#16).toNat := rfl
    exact p.notInvalid (hlen.symm.trans hones) (BitVec.eq_of_toNat_eq (hid.symm.trans honesId))

/-- Every queue keeps its id and its type and has got these words more. -/
structure Hands (m m' : Messaging) (words : Nat → List Word) : Prop where
  numActive : m'.numActiveUiqs = m.numActiveUiqs
  uiqs : ∀ i, (m'.uiqs i).map (fun u => (u.base.id, u.base.type, u.delivered)) =
    (m.uiqs i).map fun u => (u.base.id, u.base.type, u.delivered ++ words i)

theorem Hands.refl (m : Messaging) : Hands m m fun _ => [] := by
  refine ⟨rfl, fun i => ?_⟩
  simp only [List.append_nil]

theorem Hands.trans {f g : Nat → List Word} (hf : Hands m n f) (hg : Hands n m' g) :
    Hands m m' fun i => f i ++ g i := by
  refine ⟨hg.numActive.trans hf.numActive, fun i => ?_⟩
  have hfirst := hf.uiqs i
  rw [hg.uiqs i]
  cases hm : m.uiqs i with
  | none =>
    rw [hm, Option.map_none, Option.map_eq_none_iff] at hfirst
    rw [hfirst]
    rfl
  | some u =>
    rw [hm, Option.map_some, Option.map_eq_some_iff] at hfirst
    obtain ⟨v, hv, hsame⟩ := hfirst
    simp only [Prod.mk.injEq] at hsame
    obtain ⟨hid, htype, hdelivered⟩ := hsame
    simp only [hv, Option.map_some, hid, htype, hdelivered, List.append_assoc]

theorem Hands.of_same (h : m'.numActiveUiqs = m.numActiveUiqs) (hu : m'.uiqs = m.uiqs) : Hands m m' fun _ => [] := by
  refine ⟨h, fun i => ?_⟩
  rw [hu]
  simp only [List.append_nil]

theorem Hands.setUiq {i : Nat} {u v : MenableUiq} (hu : m.uiqs i = some u) (hid : v.base.id = u.base.id)
    (htype : v.base.type = u.base.type) {ws : List Word} (hws : v.delivered = u.delivered ++ ws) :
    Hands m (m.setUiq i v) fun k => if k = i then ws else [] := by
  refine ⟨rfl, fun k => ?_⟩
  by_cases hk : k = i
  · subst hk
    simp only [Messaging.setUiq_self, hu, Option.map_some, hid, htype, hws, if_true]
  · rw [Messaging.setUiq_other m hk]
    simp only [if_neg hk, List.append_nil]

theorem Hands.type {words : Nat → List Word} (h : Hands m m' words) (i : Nat) :
    (m'.uiqs i).map (·.base.type) = (m.uiqs i).map (·.base.type) := by
  have hi := congrArg (Option.map fun a => a.2.1) (h.uiqs i)
  rw [Option.map_map, Option.map_map] at hi
  exact hi

theorem Hands.findUiq {words : Nat → List Word} (h : Hands m m' words) (id : Nat) :
    findUiq m' id = findUiq m id := by
  unfold MenableDriver.findUiq
  rw [h.numActive]
  congr 1
  funext i
  have hi := h.uiqs i
  cases hm : m.uiqs i with
  | none =>
    rw [hm, Option.map_none, Option.map_eq_none_iff] at hi
    rw [hi]
  | some u =>
    rw [hm, Option.map_some, Option.map_eq_some_iff] at hi
    obtain ⟨v, hv, hsame⟩ := hi
    rw [hv]
    exact congrArg (fun id' => decide (id' = id)) (congrArg Prod.fst hsame)

theorem Hands.broughtTo {words : Nat → List Word} (h : Hands m m' words) (packets : List EventPacket) (i : Nat) :
    broughtTo m' packets i = broughtTo m packets i := by
  simp only [MenableDriver.broughtTo, h.type, h.findUiq]

/-! ### One word of a packet -/

theorem pushBack_id {q : UiqBase} (h : q.Ok) {ws : List Word} {p : UiqBase × Nat} (hp : pushBack q ws = some p) :
    p.1.id = q.id := by
  rw [pushBack_eq h] at hp
  cases hp
  rfl

theorem writeWord_id {q q' : UiqBase} (h : q.Ok) {w : Word}
    (he : writeWordWithDatalossFlagIfApplicable q w ts = some q') : q'.id = q.id := by
  simp only [writeWordWithDatalossFlagIfApplicable, pushBackDecoratedWithTimestamp, pushBack_eq h,
    Option.bind_eq_bind, Option.bind_some] at he
  split_ifs at he <;>
  · cases he
    rfl

theorem writeFromGrabber_id {q q' : UiqBase} (h : q.Ok) {w : Word} (he : writeFromGrabber q w ts = some q') :
    q'.id = q.id := by
  unfold writeFromGrabber at he
  split at he
  · simp only [writeFromGrabberRaw, Option.bind_eq_bind, Option.bind_eq_some_iff, Option.some.injEq] at he
    obtain ⟨p, hpush, rfl⟩ := he
    exact pushBack_id h hpush
  · unfold writeFromGrabberLegacy at he
    split_ifs at he
    · cases he
      rfl
    · exact writeWord_id h he
  · unfold writeFromGrabberVaEvent at he
    split_ifs at he with hinvalid hlost
    · cases he
      rfl
    · cases he
      rfl
    · obtain ⟨q₁, hwrite, hq⟩ := Option.bind_eq_some_iff.mp he
      cases hq
      exact @writeWord_id ts q q₁ h w hwrite

/-- The queue that takes the words of the current packet. -/
def readsInto (m : Messaging) (i : Nat) : Prop :=
  m.transfer.currentUiq = some i ∧ (m.uiqs i).map (·.base.type) = some .read

instance (m : Messaging) (i : Nat) : Decidable (readsInto m i) := inferInstanceAs (Decidable (_ ∧ _))

/-- A word of the payload goes to the current queue, or nowhere. -/
theorem takeWord_payload (h : m.Ok) {w : Word} (hrem : m.transfer.remainingPacketWords ≠ 0)
    (he : takeWord ts m w = some m') :
    Hands m m' (fun i => if readsInto m i then [w] else []) ∧ m'.transfer.currentUiq = m.transfer.currentUiq ∧
      m'.transfer.remainingPacketWords = m.transfer.remainingPacketWords - 1 := by
  unfold takeWord at he
  rw [if_neg hrem] at he
  cases hcur : m.transfer.currentUiq with
  | none =>
    rw [hcur] at he
    cases he
    have hnot : ∀ i, ¬ readsInto m i := fun i hi => by
      rw [readsInto, hcur] at hi
      cases hi.1
    simp only [hnot, if_false]
    exact ⟨.of_same rfl rfl, hcur, rfl⟩
  | some i =>
    obtain ⟨u, hu⟩ := h.current i hcur
    simp only [hcur, hu, Option.bind_eq_bind, Option.bind_some] at he
    by_cases htype : u.base.type = .read
    · rw [if_pos htype] at he
      obtain ⟨q, hq, _, hkept⟩ := writeFromGrabber_ok (h.queues i u hu) w ts
      have hpop : m' = (m.setUiq i { u with base := q, delivered := u.delivered ++ [w] }).countDown := by
        simpa only [popWord, hu, menUiqPop, hq, Option.bind_eq_bind, Option.bind_some, Option.some.injEq,
          eq_comm] using he
      have hreads : (fun k => if readsInto m k then [w] else []) = fun k => if k = i then [w] else [] := by
        funext k
        have hiff : readsInto m k ↔ k = i := by
          rw [readsInto, hcur]
          constructor
          · intro hk
            exact (Option.some.inj hk.1).symm
          · intro hk
            subst hk
            exact ⟨rfl, by rw [hu, Option.map_some, htype]⟩
        simp only [hiff]
      subst hpop
      rw [hreads]
      have hset := Hands.setUiq (v := { u with base := q, delivered := u.delivered ++ [w] }) hu
        (writeFromGrabber_id (h.queues i u hu) hq) hkept rfl
      exact ⟨⟨hset.numActive, hset.uiqs⟩, hcur, rfl⟩
    · rw [if_neg htype] at he
      have hnot : (fun k => if readsInto m k then [w] else []) = fun _ => [] := by
        funext k
        refine if_neg fun hk => ?_
        rw [readsInto, hcur] at hk
        obtain rfl := Option.some.inj hk.1
        rw [hu, Option.map_some] at hk
        exact htype (Option.some.inj hk.2)
      rw [hnot]
      split at he
      · -- the device has emptied its buffer, and the queue sends it the next burst
        have hpushed : ∃ u', m' = m.countDown.setUiq i u' ∧ u'.base.id = u.base.id ∧ u'.base.type = u.base.type ∧
            u'.delivered = u.delivered ++ [] := by
          have hget : m.countDown.uiqs i = some u := hu
          simp only [writePacketDone, hget, Option.bind_eq_bind, Option.bind_some] at he
          split at he
          · cases he
            exact ⟨_, rfl, rfl, rfl, (List.append_nil _).symm⟩
          · obtain ⟨p, hp, hset⟩ := Option.bind_eq_some_iff.mp he
            cases hset
            by_cases hcap : u.base.capacity = 0
            · rw [menUiqPush, if_pos hcap] at hp
              cases hp
            · rw [menUiqPush, if_neg hcap] at hp
              cases hp
              exact ⟨_, rfl, rfl, rfl, (List.append_nil _).symm⟩
        obtain ⟨u', rfl, hid, htype', hws⟩ := hpushed
        have hset := Hands.setUiq (m := m) hu hid htype' hws
        simp only [ite_self] at hset
        exact ⟨⟨hset.numActive, hset.uiqs⟩, hcur, rfl⟩
      · cases he
        exact ⟨.of_same rfl rfl, hcur, rfl⟩

/-! ### Whole packets -/

theorem payload_taken {ws : List (UiqTimestamp × Word)} (h : m.Ok)
    (hrem : m.transfer.remainingPacketWords = ws.length) (he : ws.foldlM takeStamped m = some m') :
    Hands m m' (fun i => if readsInto m i then ws.map Prod.snd else []) ∧ m'.Ok ∧
      m'.transfer.remainingPacketWords = 0 := by
  induction ws generalizing m with
  | nil =>
    cases he
    simp only [List.map_nil, ite_self]
    exact ⟨.refl _, h, hrem⟩
  | cons w ws ih =>
    rw [List.length_cons] at hrem
    obtain ⟨m₁, hstep, hok⟩ := takeWord_ok w.1 h w.2
    have htake : takeStamped m w = some m₁ := hstep
    rw [List.foldlM_cons, htake] at he
    obtain ⟨hfirst, hcur, hcount⟩ := takeWord_payload h (by omega) hstep
    obtain ⟨hrest, hok', hend⟩ := ih hok (by omega) he
    have hreads : ∀ i, readsInto m₁ i ↔ readsInto m i := by
      intro i
      rw [readsInto, readsInto, hcur, hfirst.type]
    refine ⟨?_, hok', hend⟩
    have hboth := hfirst.trans hrest
    have hwords : (fun i => if readsInto m i then (w :: ws).map Prod.snd else []) = fun i =>
        (if readsInto m i then [w.2] else []) ++ if readsInto m₁ i then ws.map Prod.snd else [] := by
      funext i
      simp only [hreads]
      split <;> rfl
    rw [hwords]
    exact hboth

theorem broughtTo_cons (m : Messaging) (p : EventPacket) (packets : List EventPacket) (i : Nat) :
    broughtTo m (p :: packets) i = broughtTo m [p] i ++ broughtTo m packets i := by
  unfold broughtTo
  split
  · rw [List.filter_cons, List.filter_cons]
    split <;> simp
  · rfl

theorem packet_taken {p : EventPacket} {ws : List (UiqTimestamp × Word)} (h : m.Ok)
    (hrem : m.transfer.remainingPacketWords = 0) (hws : ws.map Prod.snd = p.words)
    (he : ws.foldlM takeStamped m = some m') :
    Hands m m' (broughtTo m [p]) ∧ m'.Ok ∧ m'.transfer.remainingPacketWords = 0 := by
  cases ws with
  | nil => cases hws
  | cons w ws =>
    obtain ⟨hheader, hdata⟩ := List.cons.inj hws
    have hstep : takeStamped m w = some (takeHeader m p.header) := by
      rw [takeStamped, takeWord, if_pos hrem]
      exact congrArg (fun x => some (takeHeader m x)) hheader
    have hset : takeHeader m p.header = { m with transfer := { m.transfer with
        currentHeader := p.header
        remainingPacketWords := ws.length
        currentUiq := findUiq m p.id.toNat } } := by
      have hshort := p.short
      have hlen : (p.data.length + 1 + 65535) % 65536 = ws.length := by
        have hcount := congrArg List.length hdata
        rw [List.length_map] at hcount
        omega
      rw [takeHeader, if_neg (header_accepted p), header_length, header_id, hlen]
    rw [List.foldlM_cons, hstep] at he
    obtain ⟨hhands, hok, hend⟩ := payload_taken (takeHeader_ok h p.header) (by rw [hset]) he
    refine ⟨?_, hok, hend⟩
    have hwords : broughtTo m [p] =
        fun i => [] ++ if readsInto (takeHeader m p.header) i then ws.map Prod.snd else [] := by
      funext i
      rw [hset, hdata, List.nil_append]
      unfold broughtTo readsInto
      by_cases hid : findUiq m p.id.toNat = some i
      · simp [hid]
      · simp [hid]
    rw [hwords]
    have hfirst : Hands m (takeHeader m p.header) fun _ => [] := by
      rw [hset]
      exact .of_same rfl rfl
    exact hfirst.trans hhands

theorem packets_taken {packets : List EventPacket} {ws : List (UiqTimestamp × Word)} (h : m.Ok)
    (hrem : m.transfer.remainingPacketWords = 0) (hws : ws.map Prod.snd = packets.flatMap EventPacket.words)
    (he : ws.foldlM takeStamped m = some m') :
    Hands m m' (broughtTo m packets) ∧ m'.transfer.remainingPacketWords = 0 := by
  induction packets generalizing m ws with
  | nil =>
    obtain rfl := List.map_eq_nil_iff.mp hws
    cases he
    refine ⟨?_, hrem⟩
    have hnone : broughtTo m' [] = fun _ => [] := by
      funext i
      exact ite_self _
    rw [hnone]
    exact .refl m'
  | cons p packets ih =>
    rw [List.flatMap_cons] at hws
    obtain ⟨first, rest, rfl, hfirst, hrest⟩ := List.map_eq_append_iff.mp hws
    rw [List.foldlM_append] at he
    obtain ⟨m₁, hm₁, he⟩ := Option.bind_eq_some_iff.mp he
    obtain ⟨hhands₁, hok₁, hrem₁⟩ := packet_taken h hrem hfirst hm₁
    obtain ⟨hhands, hend⟩ := ih hok₁ hrem₁ hrest he
    refine ⟨?_, hend⟩
    have hwords : broughtTo m (p :: packets) = fun i => broughtTo m [p] i ++ broughtTo m₁ packets i := by
      funext i
      rw [broughtTo_cons, hhands₁.broughtTo]
    rw [hwords]
    exact hhands₁.trans hhands

/-- However the packets are cut into transmissions, and these announced by interrupts, every read
queue gets the data of the packets that name it, whole and in order, and nothing else; every
interrupt is acknowledged. A fetch that is refused takes nothing from the stream. -/
theorem messagingIrqs_deliver (b : MessagingBoard) (hc : b.ctrl.Valid) (hok : b.queues.Ok)
    (hboundary : b.queues.transfer.remainingPacketWords = 0) (irqs : List MessagingIrq)
    (stream : List (UiqTimestamp × List Word)) (c' : MessagingDmaController)
    (hf : FetchedBy b.ctrl irqs stream c') (packets : List EventPacket)
    (hwords : (stream.map Prod.snd).flatten = packets.flatMap EventPacket.words) :
    ∃ b', irqs.foldlM me6MessagingIrq b = some b' ∧ b'.ctrl = c' ∧ b'.processed = b.processed + irqs.length ∧
      b'.queues.transfer.remainingPacketWords = 0 ∧
      ∀ i u, b.queues.uiqs i = some u → ∃ u', b'.queues.uiqs i = some u' ∧
        u'.delivered = u.delivered ++ broughtTo b.queues packets i := by
  obtain ⟨b', hrun, hctrl, hcount, t, ht, hbare⟩ := messagingIrqs_process hf rfl hc hok
  have hstamped : (stamped stream).map Prod.snd = packets.flatMap EventPacket.words := by
    rw [stamped_words, hwords]
  obtain ⟨hhands, hend⟩ := packets_taken hok hboundary hstamped ht
  refine ⟨b', hrun, hctrl, hcount, ?_, fun i u hu => ?_⟩
  · have hsame : t.transfer.remainingPacketWords = b'.queues.transfer.remainingPacketWords :=
      congrArg (·.transfer.remainingPacketWords) hbare
    exact hsame.symm.trans hend
  · have hi := hhands.uiqs i
    rw [hu, Option.map_some, Option.map_eq_some_iff] at hi
    obtain ⟨v, hv, hsame⟩ := hi
    have hqueue := congrArg (·.uiqs i) hbare
    simp only [uiqs_bare, hv, Option.map_some] at hqueue
    obtain ⟨u', hu', hbareu⟩ := Option.map_eq_some_iff.mp hqueue.symm
    refine ⟨u', hu', ?_⟩
    have hdelivered : u'.bare.delivered = v.bare.delivered := by rw [hbareu]
    exact hdelivered.trans (congrArg (·.2.2) hsame)

/-- A packet of two words in two transmissions. -/
def twoTransmissions : Pages := fun page i => if page = 0 then [3, 0x30005, 7, 2, 8].getD i 0 else 0

def oneTransmissionIrq : MessagingIrq := ⟨2, fun _ => ⟨twoTransmissions, true⟩, noTime⟩

theorem oneTransmissionIrq_fetches : oneTransmissionIrq.fetches = [⟨twoTransmissions, true⟩] := rfl

theorem twoTransmissions_fetched :
    FetchedBy ⟨1, 0⟩ [oneTransmissionIrq, oneTransmissionIrq] [(noTime, [0x30005, 7]), (noTime, [8])] ⟨1, 5⟩ := by
  have hfirst : Fetched ⟨1, 0⟩ oneTransmissionIrq.fetches [[0x30005, 7]] ⟨1, 3⟩ :=
    .accepted rfl ⟨by decide, by decide, by decide⟩ (by decide) (.done _)
  have hsecond : Fetched ⟨1, 3⟩ oneTransmissionIrq.fetches [[8]] ⟨1, 5⟩ :=
    .accepted rfl ⟨by decide, by decide, by decide⟩ (by decide) (.done _)
  exact .irq hfirst (.irq hsecond (.done _))

theorem messagingIrqs_deliver_split :
    ∃ b', [oneTransmissionIrq, oneTransmissionIrq].foldlM me6MessagingIrq ⟨⟨1, 0⟩, oneQueue, 0⟩ = some b' ∧
      b'.ctrl = ⟨1, 5⟩ ∧ b'.processed = 0 + 2 ∧ b'.queues.transfer.remainingPacketWords = 0 ∧
      ∀ i u, oneQueue.uiqs i = some u → ∃ u', b'.queues.uiqs i = some u' ∧
        u'.delivered = u.delivered ++ broughtTo oneQueue [⟨5, [7, 8], by decide, by decide⟩] i :=
  messagingIrqs_deliver ⟨⟨1, 0⟩, oneQueue, 0⟩ ⟨by decide, by decide, by decide⟩ oneQueue_ok rfl _ _ _
    twoTransmissions_fetched _ rfl

end MenableDriver
