import MenableDriver.Messaging.UiqData

/-!
# The cuts of a messaging stream

How a stream is cut into transmissions and calls shows in the interrupt counts and the
completions only. One word of the stream is one step (`takeWord`), and a call makes the
steps of its words.
-/

namespace MenableDriver

set_option autoImplicit false

/-- What the parser does with one word of the stream. -/
def takeWord (ts : UiqTimestamp) (m : Messaging) (w : Word) : Option Messaging :=
  if m.transfer.remainingPacketWords = 0 then some (takeHeader m w)
  else
    match m.transfer.currentUiq with
    | none => some m.countDown
    | some i => do
      let u ← m.uiqs i
      if u.base.type = .read then popWord m i w ts
      else if m.countDown.transfer.remainingPacketWords = 0 then writePacketDone m.countDown i
      else some m.countDown

/-! ### What the cuts do not change -/

/-- A queue without its interrupt count and its completions. -/
def UiqBase.quiet (q : UiqBase) : UiqBase := { q with irqCount := 0 }

def MenableUiq.bare (u : MenableUiq) : MenableUiq := { u with base := u.base.quiet, cpl := 0 }

def Messaging.bare (m : Messaging) : Messaging :=
  { m with
    uiqs := fun i => (m.uiqs i).map MenableUiq.bare
    transfer := { m.transfer with incoming := [] } }

/-- The queues are bounded queues, and the current one exists. -/
structure Messaging.Ok (m : Messaging) : Prop where
  queues : ∀ i u, m.uiqs i = some u → u.base.Ok
  current : ∀ i, m.transfer.currentUiq = some i → ∃ u, m.uiqs i = some u

variable {m m' : Messaging} {ts : UiqTimestamp}

theorem quiet_ok {q : UiqBase} (h : q.Ok) : q.quiet.Ok := ⟨h.capacity, h.fill, h.readIndex⟩

theorem writeWord_quiet {q : UiqBase} (h : q.Ok) (value : Word) (ts : UiqTimestamp) :
    writeWordWithDatalossFlagIfApplicable q.quiet value ts =
      (writeWordWithDatalossFlagIfApplicable q value ts).map UiqBase.quiet := by
  have hflag : q.quiet.lastWordsWereLost = q.lastWordsWereLost := rfl
  have hfree : q.quiet.getFreeCapacity = q.getFreeCapacity := rfl
  simp only [writeWordWithDatalossFlagIfApplicable, pushBackDecoratedWithTimestamp, hflag, hfree,
    pushBack_eq h, pushBack_eq (quiet_ok h)]
  split_ifs <;> rfl

theorem writeFromGrabber_quiet {q : UiqBase} (h : q.Ok) (value : Word) (ts : UiqTimestamp) :
    writeFromGrabber q.quiet value ts = (writeFromGrabber q value ts).map UiqBase.quiet := by
  have hproto : q.quiet.readProtocol = q.readProtocol := rfl
  have hflag : q.quiet.lastWordsWereLost = q.lastWordsWereLost := rfl
  have heop : q.quiet.lastWordWasEop = q.lastWordWasEop := rfl
  cases hp : q.readProtocol with
  | raw =>
    simp only [writeFromGrabber, hproto, hp, writeFromGrabberRaw, pushBack_eq h, pushBack_eq (quiet_ok h)]
    rfl
  | legacy =>
    simp only [writeFromGrabber, hproto, hp, writeFromGrabberLegacy, writeWord_quiet h]
    split_ifs <;> rfl
  | vaEvent =>
    simp only [writeFromGrabber, hproto, hp, writeFromGrabberVaEvent, writeWord_quiet h, hflag, heop]
    split_ifs
    · rfl
    · rfl
    · cases writeWordWithDatalossFlagIfApplicable q value ts <;> rfl

theorem menUiqPush_bare (u : MenableUiq) :
    (menUiqPush u.bare).map (fun p => p.1.bare) = (menUiqPush u).map fun p => p.1.bare := by
  have hcap : u.bare.base.capacity = u.base.capacity := rfl
  by_cases h0 : u.base.capacity = 0
  · rw [menUiqPush, menUiqPush, if_pos h0, if_pos (hcap.trans h0)]
  · rw [menUiqPush, menUiqPush, if_neg h0, if_neg (fun h => h0 (hcap.symm.trans h))]
    rfl

/-! ### One word -/

theorem setUiq_bare (m : Messaging) (i : Nat) (u : MenableUiq) :
    (m.setUiq i u).bare = m.bare.setUiq i u.bare := by
  have huiqs : (fun k => (Function.update m.uiqs i (some u) k).map MenableUiq.bare) =
      Function.update (fun k => (m.uiqs k).map MenableUiq.bare) i (some u.bare) :=
    Function.comp_update (Option.map MenableUiq.bare) m.uiqs i (some u)
  simp only [Messaging.bare, Messaging.setUiq, huiqs]

theorem countDown_bare (m : Messaging) : m.countDown.bare = m.bare.countDown := rfl

theorem uiqs_bare (m : Messaging) (i : Nat) : m.bare.uiqs i = (m.uiqs i).map MenableUiq.bare := rfl

theorem bare_bare (m : Messaging) : m.bare.bare = m.bare := by
  have huiqs : (fun i => (m.bare.uiqs i).map MenableUiq.bare) = m.bare.uiqs := by
    funext i
    rw [uiqs_bare]
    cases m.uiqs i <;> rfl
  simp only [Messaging.bare] at huiqs ⊢
  rw [huiqs]

theorem findUiq_bare (m : Messaging) (id : Nat) : findUiq m.bare id = findUiq m id := by
  unfold findUiq
  congr 1
  funext i
  rw [uiqs_bare]
  cases m.uiqs i <;> rfl

theorem takeHeader_bare (m : Messaging) (w : Word) : takeHeader m.bare w = (takeHeader m w).bare := by
  unfold takeHeader
  split
  · rfl
  · rw [findUiq_bare]
    rfl

theorem popWord_bare (h : m.Ok) (i : Nat) (w : Word) (ts : UiqTimestamp) :
    (popWord m.bare i w ts).map Messaging.bare = (popWord m i w ts).map Messaging.bare := by
  cases hu : m.uiqs i with
  | none => simp only [popWord, uiqs_bare, hu]; rfl
  | some u =>
    have hok := h.queues i u hu
    obtain ⟨q, hq, _⟩ := writeFromGrabber_ok hok w ts
    have hquiet : writeFromGrabber u.bare.base w ts = some q.quiet := by
      rw [show u.bare.base = u.base.quiet from rfl, writeFromGrabber_quiet hok, hq]
      rfl
    simp only [popWord, uiqs_bare, hu, Option.map_some, menUiqPop, Option.bind_eq_bind, Option.bind_some,
      hquiet, hq, countDown_bare, setUiq_bare, bare_bare]
    rfl

theorem writePacketDone_bare (m : Messaging) (i : Nat) :
    (writePacketDone m.bare i).map Messaging.bare = (writePacketDone m i).map Messaging.bare := by
  cases hu : m.uiqs i with
  | none => simp only [writePacketDone, uiqs_bare, hu]; rfl
  | some u =>
    have hfill : u.bare.base.fill = u.base.fill := rfl
    have hpush := menUiqPush_bare u
    simp only [writePacketDone, uiqs_bare, hu, Option.map_some, Option.bind_eq_bind, Option.bind_some, hfill]
    split
    · simp only [Option.map_some, setUiq_bare, bare_bare]
      rfl
    · cases hp : menUiqPush u with
      | none =>
        rw [hp, Option.map_none, Option.map_eq_none_iff] at hpush
        rw [hpush]
        rfl
      | some p =>
        rw [hp, Option.map_some, Option.map_eq_some_iff] at hpush
        obtain ⟨p', hp', hbare⟩ := hpush
        rw [hp']
        simp only [Option.bind_some, Option.map_some, setUiq_bare, bare_bare, hbare]

theorem takeWord_bare (h : m.Ok) (w : Word) :
    (takeWord ts m.bare w).map Messaging.bare = (takeWord ts m w).map Messaging.bare := by
  have hrem : m.bare.transfer.remainingPacketWords = m.transfer.remainingPacketWords := rfl
  have hcur : m.bare.transfer.currentUiq = m.transfer.currentUiq := rfl
  have hrem' : m.bare.countDown.transfer.remainingPacketWords =
    m.countDown.transfer.remainingPacketWords := rfl
  simp only [takeWord, hrem, hcur, hrem', uiqs_bare]
  split
  · rw [takeHeader_bare, Option.map_some, bare_bare, Option.map_some]
  · split
    · rw [← countDown_bare, Option.map_some, bare_bare, Option.map_some]
    · rename_i i _
      cases hu : m.uiqs i with
      | none => rfl
      | some u =>
        have htype : u.bare.base.type = u.base.type := rfl
        simp only [Option.map_some, Option.bind_eq_bind, Option.bind_some, htype]
        split_ifs
        · exact popWord_bare h i w ts
        · rw [← countDown_bare]
          exact writePacketDone_bare m.countDown i
        · rw [← countDown_bare, Option.map_some, bare_bare, Option.map_some]

theorem setUiq_ok (h : m.Ok) (i : Nat) {u : MenableUiq} (hu : u.base.Ok) : (m.setUiq i u).Ok := by
  constructor
  · intro k u' hk
    by_cases hki : k = i
    · subst hki
      rw [Messaging.setUiq_self] at hk
      cases hk
      exact hu
    · rw [Messaging.setUiq_other m hki] at hk
      exact h.queues k u' hk
  · intro k hk
    by_cases hki : k = i
    · exact ⟨u, by rw [hki, Messaging.setUiq_self]⟩
    · rw [Messaging.setUiq_other m hki]
      exact h.current k hk

theorem countDown_ok (h : m.Ok) : m.countDown.Ok := ⟨h.queues, h.current⟩

theorem findUiq_some {id i : Nat} (h : findUiq m id = some i) : ∃ u, m.uiqs i = some u := by
  have hp := List.find?_some h
  cases hu : m.uiqs i with
  | none =>
    rw [hu] at hp
    cases hp
  | some u => exact ⟨u, rfl⟩

theorem takeHeader_ok (h : m.Ok) (w : Word) : (takeHeader m w).Ok := by
  unfold takeHeader
  split
  · exact ⟨h.queues, h.current⟩
  · exact ⟨h.queues, fun i hi => findUiq_some hi⟩

/-- A queue that exists gets its word. -/
theorem popWord_ok (h : m.Ok) {i : Nat} {u : MenableUiq} (hu : m.uiqs i = some u) (w : Word)
    (ts : UiqTimestamp) :
    ∃ u', popWord m i w ts = some (m.setUiq i u').countDown ∧ u'.base.Ok ∧ u'.base.type = u.base.type := by
  obtain ⟨q, hq, hok, htype⟩ := writeFromGrabber_ok (h.queues i u hu) w ts
  refine ⟨{ u with base := q, delivered := u.delivered ++ [w] }, ?_, hok, htype⟩
  simp only [popWord, hu, menUiqPop, hq, Option.bind_eq_bind, Option.bind_some]

theorem writePacketDone_ok (h : m.Ok) {i : Nat} {u : MenableUiq} (hu : m.uiqs i = some u) :
    ∃ u', writePacketDone m i = some (m.setUiq i u') ∧ u'.base.Ok ∧ u'.base.type = u.base.type := by
  have hok := h.queues i u hu
  simp only [writePacketDone, hu, Option.bind_eq_bind, Option.bind_some]
  split
  · exact ⟨_, rfl, ⟨hok.capacity, hok.fill, .inr rfl⟩, rfl⟩
  · have hfill := hok.fill
    obtain ⟨u', empty, he, hok', htype⟩ := menUiqPush_ok hok (by omega)
    exact ⟨u', by rw [he]; rfl, hok', htype⟩

theorem takeWord_ok (ts : UiqTimestamp) (h : m.Ok) (w : Word) : ∃ t, takeWord ts m w = some t ∧ t.Ok := by
  unfold takeWord
  split
  · exact ⟨_, rfl, takeHeader_ok h w⟩
  · split
    · exact ⟨_, rfl, countDown_ok h⟩
    · rename_i i hi
      obtain ⟨u, hu⟩ := h.current i hi
      simp only [hu, Option.bind_eq_bind, Option.bind_some]
      split_ifs
      · obtain ⟨u', he, hok, _⟩ := popWord_ok h hu w ts
        exact ⟨_, he, countDown_ok (setUiq_ok h i hok)⟩
      · obtain ⟨u', he, hok, _⟩ := writePacketDone_ok (countDown_ok h) (i := i) hu
        exact ⟨_, he, setUiq_ok (countDown_ok h) i hok⟩
      · exact ⟨_, rfl, countDown_ok h⟩

theorem ok_of_bare (h : m.Ok) (hb : m.bare = m'.bare) : m'.Ok := by
  have huiqs : ∀ i, (m.uiqs i).map MenableUiq.bare = (m'.uiqs i).map MenableUiq.bare := by
    intro i
    rw [← uiqs_bare, hb, uiqs_bare]
  have hcur : m.transfer.currentUiq = m'.transfer.currentUiq := congrArg (·.transfer.currentUiq) hb
  constructor
  · intro i u hu
    have hi := huiqs i
    rw [hu, Option.map_some, Option.map_eq_some_iff] at hi
    obtain ⟨u₀, hu₀, hbare⟩ := hi
    have hok := h.queues i u₀ hu₀
    have hq : u₀.base.quiet = u.base.quiet := congrArg MenableUiq.base hbare
    have hquiet : u.base.quiet.Ok := hq ▸ quiet_ok hok
    exact ⟨hquiet.capacity, hquiet.fill, hquiet.readIndex⟩
  · intro i hi
    obtain ⟨u, hu⟩ := h.current i (hcur.trans hi)
    have hmap := huiqs i
    rw [hu, Option.map_some] at hmap
    obtain ⟨u', hu', _⟩ := Option.map_eq_some_iff.mp hmap.symm
    exact ⟨u', hu'⟩

/-- Equal up to the counts, two states take a word in the same way. -/
theorem takeWord_alike (h : m.Ok) (hb : m.bare = m'.bare) {w : Word} {t : Messaging}
    (ht : takeWord ts m w = some t) : ∃ t', takeWord ts m' w = some t' ∧ t.bare = t'.bare := by
  have hmap : (takeWord ts m' w).map Messaging.bare = some t.bare := by
    rw [← takeWord_bare (ok_of_bare h hb), ← hb, takeWord_bare h, ht, Option.map_some]
  obtain ⟨t', ht', hbare⟩ := Option.map_eq_some_iff.mp hmap
  exact ⟨t', ht', hbare.symm⟩

/-! ### The words of a call -/

/-- The words take the first state to a state that differs from the second one in the
counts only. -/
def TakesTo (ts : UiqTimestamp) (m : Messaging) (ws : List Word) (m' : Messaging) : Prop :=
  ∃ t, ws.foldlM (takeWord ts) m = some t ∧ t.bare = m'.bare

theorem TakesTo.refl (hb : m.bare = m'.bare) : TakesTo ts m [] m' := ⟨m, rfl, hb⟩

theorem takesTo_one (h : m.Ok) (hb : m.bare = m'.bare) {w : Word} {t : Messaging}
    (ht : takeWord ts m' w = some t) : TakesTo ts m [w] t := by
  obtain ⟨t', ht', hbare⟩ := takeWord_alike (ok_of_bare h hb) hb.symm ht
  refine ⟨t', ?_, hbare.symm⟩
  rw [List.foldlM_cons, ht']
  rfl

theorem takesTo_ok (h : m.Ok) {ws : List Word} (ht : TakesTo ts m ws m') : m'.Ok := by
  obtain ⟨t, he, hb⟩ := ht
  refine ok_of_bare ?_ hb
  clear hb
  induction ws generalizing m with
  | nil =>
    cases he
    exact h
  | cons w ws ih =>
    obtain ⟨t₁, ht₁, hok⟩ := takeWord_ok ts h w
    rw [List.foldlM_cons, ht₁] at he
    exact ih hok he

theorem TakesTo.alike (h : m.Ok) {n : Messaging} (hb : m.bare = n.bare) {ws : List Word}
    (ht : TakesTo ts n ws m') : TakesTo ts m ws m' := by
  obtain ⟨t, he, hbt⟩ := ht
  induction ws generalizing m n with
  | nil =>
    cases he
    exact ⟨m, rfl, hb.trans hbt⟩
  | cons w ws ih =>
    obtain ⟨t₁, ht₁, hok₁⟩ := takeWord_ok ts h w
    obtain ⟨n₁, hn₁, hb₁⟩ := takeWord_alike h hb ht₁
    rw [List.foldlM_cons, hn₁] at he
    obtain ⟨t', he', hb'⟩ := ih hok₁ hb₁ he
    refine ⟨t', ?_, hb'⟩
    rw [List.foldlM_cons, ht₁]
    exact he'

theorem TakesTo.trans (h : m.Ok) {n : Messaging} {ws vs : List Word} (hw : TakesTo ts m ws n)
    (hv : TakesTo ts n vs m') : TakesTo ts m (ws ++ vs) m' := by
  obtain ⟨t, he, hb⟩ := hw
  have hok : t.Ok := takesTo_ok h ⟨t, he, rfl⟩
  obtain ⟨t', he', hb'⟩ := hv.alike hok hb
  refine ⟨t', ?_, hb'⟩
  rw [List.foldlM_append, he]
  exact he'

/-- The read pointer behind a word. -/
def Messaging.advance (m : Messaging) (rest : List Word) : Messaging :=
  { m with transfer := { m.transfer with incoming := rest } }

theorem fetch_cons {w : Word} {rest : List Word} (h : m.transfer.incoming = w :: rest) :
    menFetchNextIncomingUiqWord m = some (w, m.advance rest) := by
  simp only [menFetchNextIncomingUiqWord, h]
  rfl

theorem advance_ok (h : m.Ok) (rest : List Word) : (m.advance rest).Ok := ⟨h.queues, h.current⟩

theorem advance_bare (m : Messaging) (rest : List Word) : m.bare = (m.advance rest).bare := rfl

/-- A loop stops after some of the words, and the state is the one behind them. -/
structure Stops (ts : UiqTimestamp) (m : Messaging) (ws rest taken left : List Word) (m' : Messaging) :
    Prop where
  words : ws = taken ++ left
  incoming : m'.transfer.incoming = left ++ rest
  takes : TakesTo ts m taken m'

theorem Stops.cons (h : m.Ok) {w : Word} {ws rest taken left : List Word} {n : Messaging}
    (hw : TakesTo ts m [w] n) (hs : Stops ts n ws rest taken left m') :
    Stops ts m (w :: ws) rest (w :: taken) left m' :=
  ⟨by rw [hs.words, List.cons_append], hs.incoming, TakesTo.trans h hw hs.takes⟩

theorem discardLoop_stops (ts : UiqTimestamp) (h : m.Ok) (hcur : m.transfer.currentUiq = none)
    {ws rest : List Word}
    (hin : m.transfer.incoming = ws ++ rest) :
    ∃ m' taken left, discardLoop m ws.length = some (m', left.length) ∧ Stops ts m ws rest taken left m' ∧
      (ws ≠ [] → 0 < m.transfer.remainingPacketWords → taken ≠ []) := by
  induction ws generalizing m with
  | nil => exact ⟨m, [], [], rfl, ⟨rfl, hin, .refl rfl⟩, fun hne => absurd rfl hne⟩
  | cons w ws ih =>
    simp only [List.length_cons, discardLoop]
    split
    · rename_i hpos
      have hstep : takeWord ts (m.advance (ws ++ rest)) w = some (m.advance (ws ++ rest)).countDown := by
        have hne : (m.advance (ws ++ rest)).transfer.remainingPacketWords ≠ 0 := Nat.ne_of_gt hpos
        have hnone : (m.advance (ws ++ rest)).transfer.currentUiq = none := hcur
        simp only [takeWord, if_neg hne, hnone]
      obtain ⟨m', taken, left, hloop, hstops, _⟩ :=
        ih (m := (m.advance (ws ++ rest)).countDown) (countDown_ok (advance_ok h _)) hcur rfl
      refine ⟨m', w :: taken, left, ?_, hstops.cons h (takesTo_one h (advance_bare m _) hstep), by simp⟩
      rw [fetch_cons hin]
      exact hloop
    · rename_i hzero
      exact ⟨m, [], w :: ws, rfl, ⟨rfl, hin, .refl rfl⟩, fun _ hpos => absurd hpos hzero⟩

theorem popLoopOf_stops (ts : UiqTimestamp) (h : m.Ok) {i : Nat} (hcur : m.transfer.currentUiq = some i)
    {u : MenableUiq}
    (hu : m.uiqs i = some u) (htype : u.base.type = .read) {ws rest : List Word}
    (hin : m.transfer.incoming = ws ++ rest) :
    ∃ m' taken left, popLoopOf i ts m ws.length = some (m', left.length) ∧
      Stops ts m ws rest taken left m' ∧ m'.transfer.currentUiq = some i ∧
      (ws ≠ [] → 0 < m.transfer.remainingPacketWords → taken ≠ []) := by
  induction ws generalizing m u with
  | nil => exact ⟨m, [], [], rfl, ⟨rfl, hin, .refl rfl⟩, hcur, fun hne => absurd rfl hne⟩
  | cons w ws ih =>
    simp only [List.length_cons, popLoopOf]
    split
    · rename_i hpos
      have hok := advance_ok h (ws ++ rest)
      obtain ⟨u', hpop, hok', htype'⟩ := popWord_ok hok (i := i) hu w ts
      have hstep : takeWord ts (m.advance (ws ++ rest)) w =
          some ((m.advance (ws ++ rest)).setUiq i u').countDown := by
        have hne : (m.advance (ws ++ rest)).transfer.remainingPacketWords ≠ 0 := Nat.ne_of_gt hpos
        have hsome : (m.advance (ws ++ rest)).transfer.currentUiq = some i := hcur
        have huiq : (m.advance (ws ++ rest)).uiqs i = some u := hu
        simp only [takeWord, if_neg hne, hsome, huiq, Option.bind_eq_bind, Option.bind_some,
          if_pos htype, hpop]
      obtain ⟨m', taken, left, hloop, hstops, hcur', _⟩ :=
        ih (m := ((m.advance (ws ++ rest)).setUiq i u').countDown) (countDown_ok (setUiq_ok hok i hok')) hcur
          (Messaging.setUiq_self _ i u') (htype'.trans htype) rfl
      refine ⟨m', w :: taken, left, ?_, hstops.cons h (takesTo_one h (advance_bare m _) hstep),
        hcur', by simp⟩
      rw [fetch_cons (show m.transfer.incoming = w :: (ws ++ rest) from hin)]
      simp only [Option.bind_eq_bind, Option.bind_some, hpop]
      exact hloop
    · rename_i hzero
      exact ⟨m, [], w :: ws, rfl, ⟨rfl, hin, .refl rfl⟩, hcur, fun _ hpos => absurd hpos hzero⟩

theorem discardLoop_zero (h : m.transfer.remainingPacketWords = 0) (n : Nat) : discardLoop m n =
    some (m, n) := by
  cases n with
  | zero => rfl
  | succ n =>
    simp only [discardLoop]
    rw [if_neg (by omega)]

theorem takeWord_write (ts : UiqTimestamp) {i : Nat} (hcur : m.transfer.currentUiq = some i) {u : MenableUiq}
    (hu : m.uiqs i = some u) (htype : u.base.type ≠ .read) (hpos : 0 < m.transfer.remainingPacketWords)
    (w : Word) (l : List Word) :
    takeWord ts (m.advance l) w =
      if (m.advance l).countDown.transfer.remainingPacketWords = 0
        then writePacketDone (m.advance l).countDown i
      else some (m.advance l).countDown := by
  have hne : (m.advance l).transfer.remainingPacketWords ≠ 0 := Nat.ne_of_gt hpos
  have hsome : (m.advance l).transfer.currentUiq = some i := hcur
  have huiq : (m.advance l).uiqs i = some u := hu
  simp only [takeWord, if_neg hne, hsome, huiq, Option.bind_eq_bind, Option.bind_some, if_neg htype]

/-- The words reach the state, or the one behind the packet when the packet ends there. -/
def Reaches (ts : UiqTimestamp) (m : Messaging) (i : Nat) (ws : List Word) (m' : Messaging) : Prop :=
  (m'.transfer.remainingPacketWords ≠ 0 → TakesTo ts m ws m') ∧
    (m'.transfer.remainingPacketWords = 0 → ∀ t, writePacketDone m' i = some t → TakesTo ts m ws t)

theorem reaches_one (ts : UiqTimestamp) (h : m.Ok) {i : Nat} (hcur : m.transfer.currentUiq = some i)
    {u : MenableUiq}
    (hu : m.uiqs i = some u) (htype : u.base.type ≠ .read) (hpos : 0 < m.transfer.remainingPacketWords)
    (w : Word) (l : List Word) : Reaches ts m i [w] (m.advance l).countDown := by
  have hstep := takeWord_write ts hcur hu htype hpos w l
  constructor
  · intro hne
    rw [if_neg hne] at hstep
    exact takesTo_one h (advance_bare m l) hstep
  · intro hz t ht
    rw [if_pos hz, ht] at hstep
    exact takesTo_one h (advance_bare m l) hstep

/-- The last word of a packet to a write queue is the one that the queue hears of. -/
theorem discardLoop_write (ts : UiqTimestamp) (h : m.Ok) {i : Nat} (hcur : m.transfer.currentUiq = some i)
    {u : MenableUiq}
    (hu : m.uiqs i = some u) (htype : u.base.type ≠ .read) (hpos : 0 < m.transfer.remainingPacketWords)
    {w : Word} {ws rest : List Word} (hin : m.transfer.incoming = w :: (ws ++ rest)) :
    ∃ m' taken left, discardLoop m (ws.length + 1) = some (m', left.length) ∧ w :: ws = taken ++ left ∧
      taken ≠ [] ∧ m'.transfer.incoming = left ++ rest ∧ m'.Ok ∧ m'.uiqs i = some u ∧
        Reaches ts m i taken m' := by
  induction ws generalizing m w with
  | nil =>
    refine ⟨(m.advance rest).countDown, [w], [], ?_, rfl, by simp, rfl, countDown_ok (advance_ok h rest), hu,
      reaches_one ts h hcur hu htype hpos w rest⟩
    rw [discardLoop, if_pos hpos, fetch_cons hin]
    rfl
  | cons w' ws ih =>
    have hone := reaches_one ts h hcur hu htype hpos w (w' :: ws ++ rest)
    have hok := countDown_ok (advance_ok h (w' :: ws ++ rest))
    have hloop : discardLoop m ((w' :: ws).length + 1) =
        discardLoop (m.advance (w' :: ws ++ rest)).countDown (ws.length + 1) := by
      rw [discardLoop, if_pos hpos, fetch_cons hin]
      rfl
    by_cases hlast : (m.advance (w' :: ws ++ rest)).countDown.transfer.remainingPacketWords = 0
    · exact ⟨_, [w], w' :: ws, hloop.trans (discardLoop_zero hlast _), rfl, by simp, rfl, hok, hu, hone⟩
    · obtain ⟨m', taken, left, he, hwords, _, hin', hok', hu', hreach⟩ :=
        ih hok hcur hu (Nat.pos_of_ne_zero hlast) rfl
      refine ⟨m', w :: taken, left, hloop.trans he, by rw [hwords, List.cons_append], by simp, hin',
        hok', hu', ?_⟩
      have hw := hone.1 hlast
      exact ⟨fun hne => TakesTo.trans h hw (hreach.1 hne), fun hz t ht =>
        TakesTo.trans h hw (hreach.2 hz t ht)⟩

theorem setUiq_same {i : Nat} {u : MenableUiq} (h : m.uiqs i = some u) : m.setUiq i u = m := by
  have huiqs : Function.update m.uiqs i (some u) = m.uiqs := by rw [← h, Function.update_eq_self]
  rw [Messaging.setUiq, huiqs]

theorem readVisitDone_takes {i : Nat} {ws : List Word} {t : Messaging} (ht : TakesTo ts m ws m')
    (hdone : readVisitDone m' i = some t) : TakesTo ts m ws t := by
  obtain ⟨t₀, he, hb⟩ := ht
  refine ⟨t₀, he, hb.trans ?_⟩
  simp only [readVisitDone, Option.bind_eq_bind, Option.bind_eq_some_iff, Option.some.injEq] at hdone
  obtain ⟨u, hu, rfl⟩ := hdone
  have huiqs : m'.bare.uiqs i = some u.bare := by rw [uiqs_bare, hu, Option.map_some]
  rw [setUiq_bare]
  exact (setUiq_same huiqs).symm

/-- A visit to the payload takes at least one word. -/
theorem processPayload_stops (ts : UiqTimestamp) (h : m.Ok) (hpos : 0 < m.transfer.remainingPacketWords)
    {w : Word}
    {ws rest : List Word} (hin : m.transfer.incoming = w :: (ws ++ rest)) :
    ∃ m' taken left, processPayload m (ws.length + 1) ts = some (m', left.length) ∧
      Stops ts m (w :: ws) rest taken left m' ∧ taken ≠ [] := by
  unfold processPayload
  split
  · rename_i hcur
    obtain ⟨m', taken, left, he, hstops, hne⟩ := discardLoop_stops ts h hcur (show m.transfer.incoming = (w :: ws) ++ rest from hin)
    exact ⟨m', taken, left, he, hstops, hne (by simp) hpos⟩
  · rename_i i hcur
    obtain ⟨u, hu⟩ := h.current i hcur
    simp only [hu, Option.bind_eq_bind, Option.bind_some]
    split
    · rename_i htype
      obtain ⟨m', taken, left, he, hstops, hcur', hne⟩ := popLoopOf_stops ts h hcur hu htype
        (show m.transfer.incoming = (w :: ws) ++ rest from hin)
      obtain ⟨u', hu'⟩ := (takesTo_ok h hstops.takes).current i hcur'
      have hdone : ∃ t, readVisitDone m' i = some t ∧ t.transfer = m'.transfer := by
        simp only [readVisitDone, hu', Option.bind_eq_bind, Option.bind_some]
        exact ⟨_, rfl, rfl⟩
      obtain ⟨t, ht, htransfer⟩ := hdone
      refine ⟨t, taken, left, ?_, ⟨hstops.words, htransfer ▸ hstops.incoming,
        readVisitDone_takes hstops.takes ht⟩, hne (by simp) hpos⟩
      rw [List.length_cons] at he
      simp only [he, Option.bind_some, ht]
    · rename_i htype
      obtain ⟨m', taken, left, he, hwords, hne, hin', hok', hu', hreach⟩ :=
        discardLoop_write ts h hcur hu htype hpos hin
      simp only [he, Option.bind_some]
      split
      · rename_i hz
        obtain ⟨u', ht, _⟩ := writePacketDone_ok hok' hu'
        refine ⟨m'.setUiq i u', taken, left, by rw [ht]; rfl, ⟨hwords, hin', hreach.2 hz _ ht⟩, hne⟩
      · rename_i hz
        exact ⟨m', taken, left, rfl, ⟨hwords, hin', hreach.1 hz⟩, hne⟩

theorem takeWord_header (ts : UiqTimestamp) (hz : m.transfer.remainingPacketWords = 0) (w : Word)
    (l : List Word) :
    takeWord ts (m.advance l) w = some (takeHeader (m.advance l) w) := if_pos hz

theorem takeHeader_incoming (m : Messaging) (w : Word) :
    (takeHeader m w).transfer.incoming = m.transfer.incoming := by
  unfold takeHeader
  split <;> rfl

theorem processLoop_takes (ts : UiqTimestamp) (h : m.Ok) {rounds : Nat} {ws rest : List Word}
    (hr : ws.length ≤ rounds)
    (hin : m.transfer.incoming = ws ++ rest) :
    ∃ m', processLoop ts rounds m ws.length = some m' ∧ m'.transfer.incoming = rest ∧ TakesTo ts m ws m' := by
  induction rounds generalizing m ws with
  | zero =>
    obtain rfl := List.length_eq_zero_iff.mp (Nat.le_zero.mp hr)
    exact ⟨m, rfl, hin, .refl rfl⟩
  | succ rounds ih =>
    cases ws with
    | nil => exact ⟨m, rfl, hin, .refl rfl⟩
    | cons w ws =>
      rw [List.length_cons, processLoop]
      split
      · rename_i hz
        have htakes := takesTo_one h (advance_bare m _) (takeWord_header ts hz w (ws ++ rest))
        obtain ⟨m', he, hin', ht⟩ := ih (takesTo_ok h htakes) (Nat.le_of_succ_le_succ hr)
          (takeHeader_incoming (m.advance (ws ++ rest)) w)
        refine ⟨m', ?_, hin', TakesTo.trans h htakes ht⟩
        rw [fetch_cons (show m.transfer.incoming = w :: (ws ++ rest) from hin)]
        exact he
      · rename_i hne
        obtain ⟨m₁, taken, left, he, hstops, htaken⟩ :=
          processPayload_stops ts h (Nat.pos_of_ne_zero hne) hin
        have hlen : left.length ≤ rounds := by
          have hwords := congrArg List.length hstops.words
          have hpos := List.length_pos_iff.mpr htaken
          simp only [List.length_append, List.length_cons] at hwords hr
          omega
        obtain ⟨m', he', hin', ht⟩ := ih (takesTo_ok h hstops.takes) hlen hstops.incoming
        refine ⟨m', ?_, hin', ?_⟩
        · rw [he]
          exact he'
        · rw [hstops.words]
          exact TakesTo.trans h hstops.takes ht

theorem calls_take (ts : UiqTimestamp) (h : m.Ok) (calls : List (List Word))
    (hin : m.transfer.incoming = calls.flatten) :
    ∃ m', calls.foldlM (fun m words => processUiqData m words.length ts) m = some m' ∧
      TakesTo ts m calls.flatten m' := by
  induction calls generalizing m with
  | nil => exact ⟨m, rfl, .refl rfl⟩
  | cons words calls ih =>
    obtain ⟨m₁, he, hin', ht⟩ := processLoop_takes ts h (Nat.le_refl words.length) hin
    obtain ⟨m', he', ht'⟩ := ih (takesTo_ok h ht) hin'
    refine ⟨m', ?_, TakesTo.trans h ht ht'⟩
    rw [List.foldlM_cons]
    simp only [processUiqData, he, Option.bind_eq_bind, Option.bind_some]
    exact he'

/-- A cut makes the steps of the words of the stream. -/
theorem transmissions_take (ts : UiqTimestamp) (h : m.Ok) (cut : List (List (List Word))) :
    ∃ m', processTransmissions ts m cut = some m' ∧ TakesTo ts m cut.flatten.flatten m' := by
  induction cut generalizing m with
  | nil => exact ⟨m, rfl, .refl rfl⟩
  | cons calls cut ih =>
    obtain ⟨m₁, he, ht⟩ := calls_take ts (advance_ok h calls.flatten) calls rfl
    have ht₁ : TakesTo ts m calls.flatten m₁ := ht.alike h (advance_bare m _)
    obtain ⟨m', he', ht'⟩ := ih (takesTo_ok h ht₁)
    refine ⟨m', ?_, ?_⟩
    · have hfirst : processTransmission ts m calls = some m₁ := he
      rw [processTransmissions, List.foldlM_cons, hfirst]
      exact he'
    · rw [List.flatten_cons, List.flatten_append]
      exact TakesTo.trans h ht₁ ht'

/-- Two states of the board that differ in the interrupt counts, the completions and the
read pointer at most. -/
structure SameStream (m m' : Messaging) : Prop where
  currentUiq : m.transfer.currentUiq = m'.transfer.currentUiq
  currentHeader : m.transfer.currentHeader = m'.transfer.currentHeader
  remainingPacketWords : m.transfer.remainingPacketWords = m'.transfer.remainingPacketWords
  uiqs : ∀ i, (m.uiqs i).map MenableUiq.bare = (m'.uiqs i).map MenableUiq.bare

/-- Any two cuts of a stream lead to the same queues and the same transfer state. -/
theorem cuts_agree (ts : UiqTimestamp) (m : Messaging) (h : m.Ok) (cut cut' : List (List (List Word)))
    (hstream : cut.flatten.flatten = cut'.flatten.flatten) :
    ∃ t t', processTransmissions ts m cut = some t ∧ processTransmissions ts m cut' = some t' ∧
      SameStream t t' := by
  obtain ⟨t, he, s, hs, hb⟩ := transmissions_take ts h cut
  obtain ⟨t', he', s', hs', hb'⟩ := transmissions_take ts h cut'
  rw [hstream, hs'] at hs
  cases hs
  have hbare : t.bare = t'.bare := hb.symm.trans hb'
  refine ⟨t, t', he, he', congrArg (·.transfer.currentUiq) hbare, congrArg (·.transfer.currentHeader) hbare,
    congrArg (·.transfer.remainingPacketWords) hbare, fun i => ?_⟩
  rw [← uiqs_bare, ← uiqs_bare, hbare]

/-- One queue for VA events, with the id 5. -/
def oneQueue : Messaging :=
  { uiqs := fun i => if i = 0 then some { base := uiqBaseInit (fun _ => 0) 4 5 .read .vaEvent 0 } else none
    numActiveUiqs := 1 }

theorem oneQueue_ok : oneQueue.Ok := by
  constructor
  · intro i u hu
    simp only [oneQueue] at hu
    split at hu
    · cases hu
      exact (uiqBaseInit_refines (fun _ => 0) (by decide) 5 .read .vaEvent 0).ok
    · cases hu
  · intro i hi
    cases hi

/-- A packet with two words, cut behind the header and inside the payload. -/
theorem cuts_agree_oneQueue :
    ∃ t t', processTransmissions noTime oneQueue [[[0x30005, 7], [8]]] = some t ∧
      processTransmissions noTime oneQueue [[[0x30005]], [[7, 8]]] = some t' ∧ SameStream t t' :=
  cuts_agree noTime oneQueue oneQueue_ok _ _ rfl

end MenableDriver
