import MenableDriver.Controllers.Bpi

/-!
# Read bursts of the BPI controller

A burst is right when each word of its buffer is the answer to a read at its own place in the flash. That takes
more than answers in time: the chunk of a word must not go over the end of its bank, the shots after the first
must come to the right addresses, and nothing may be wrong about the bank and the FIFO when the burst begins.
-/

namespace MenableDriver

set_option autoImplicit false

open Replay (replay)

def BPI_WORDS_PER_READ : Nat := BPI_BYTES_PER_READ / 2

/-- The address of a word of a burst. -/
def wordAddress (address k : Nat) : Nat := (address + k) % 2 ^ 32

/-- Where the chunk of the word starts. Each shot begins at `address` again. -/
def chunkAddress (address k : Nat) : Nat := (address + k % BPI_WORDS_PER_READ / 16 * 16) % 2 ^ 32

/-- Where the read for the word is made. -/
def chunkLocation (l : BpiLayout) (address k : Nat) : BpiLocation :=
  ⟨l.bank (chunkAddress address k), (l.inBank (chunkAddress address k) + k % 16) % 2 ^ l.addressRegWidth⟩

/-! ### Places in the flash -/

variable {l : BpiLayout} {env : BpiEnvironment} {address k n : Nat}

/-- The chunk of the word ends before its bank does, or there is only one bank. -/
def WithinBank (l : BpiLayout) (address k : Nat) : Prop :=
  l.bankWidth = 0 ∨ l.inBank (chunkAddress address k) + k % 16 < 2 ^ l.addressRegWidth

instance (l : BpiLayout) (address k : Nat) : Decidable (WithinBank l address k) :=
  inferInstanceAs (Decidable (_ ∨ _))

theorem addressWidth_eq (l : BpiLayout) : l.addressRegWidth + l.bankWidth = l.addressWidth :=
  Nat.sub_add_cancel l.bankWidth_le

/-- A place says what its address is, up to the width of the addresses. -/
theorem location_eq_iff (a b : Nat) :
    l.location a = l.location b ↔ a % 2 ^ l.addressWidth = b % 2 ^ l.addressWidth := by
  have hsplit : ∀ x, x % 2 ^ l.addressWidth = l.inBank x + 2 ^ l.addressRegWidth * l.bank x := by
    intro x
    rw [← addressWidth_eq l, Nat.pow_add, Nat.mod_mul]
    rfl
  have hlt : ∀ x, l.inBank x < 2 ^ l.addressRegWidth := fun x => Nat.mod_lt _ (Nat.two_pow_pos _)
  constructor
  · intro h
    obtain ⟨hbank, hin⟩ := BpiLocation.mk.inj h
    rw [hsplit, hsplit, hbank, hin]
  · intro h
    rw [hsplit, hsplit] at h
    have hin := congrArg (· % 2 ^ l.addressRegWidth) h
    have hbank := congrArg (· / 2 ^ l.addressRegWidth) h
    simp only [Nat.add_mul_mod_self_left, Nat.mod_eq_of_lt (hlt _)] at hin
    simp only [Nat.add_mul_div_left _ _ (Nat.two_pow_pos _), Nat.div_eq_of_lt (hlt _), Nat.zero_add] at hbank
    rw [BpiLayout.location, BpiLayout.location, hbank, hin]

theorem location_mod (a : Nat) : l.location (a % 2 ^ 32) = l.location a := by
  apply (location_eq_iff _ _).mpr
  exact Nat.mod_mod_of_dvd _ (Nat.pow_dvd_pow 2 l.addressWidth_le)

/-- Going on inside of a bank. -/
theorem location_add {a j : Nat} (h : l.bankWidth = 0 ∨ l.inBank a + j < 2 ^ l.addressRegWidth) :
    l.location (a + j) = ⟨l.bank a, (l.inBank a + j) % 2 ^ l.addressRegWidth⟩ := by
  have hin : l.inBank (a + j) = (l.inBank a + j) % 2 ^ l.addressRegWidth := (Nat.mod_add_mod _ _ _).symm
  have hbank : l.bank (a + j) = l.bank a := by
    rcases h with hone | hlt
    · rw [BpiLayout.bank, BpiLayout.bank, hone, Nat.pow_zero, Nat.mod_one, Nat.mod_one]
    · have hdiv := Nat.div_add_mod a (2 ^ l.addressRegWidth)
      have hsplit : a + j = l.inBank a + j + 2 ^ l.addressRegWidth * (a / 2 ^ l.addressRegWidth) := by
        rw [BpiLayout.inBank]
        omega
      rw [BpiLayout.bank, hsplit, Nat.add_mul_div_left _ _ (Nat.two_pow_pos _), Nat.div_eq_of_lt hlt,
        Nat.zero_add]
      rfl
  rw [BpiLayout.location, hbank, hin]

/-- The first word behind the end of a bank is in another one. -/
theorem bank_add_ne {a j : Nat} (hbanks : l.bankWidth ≠ 0) (h : l.inBank a + j = 2 ^ l.addressRegWidth) :
    l.bank (a + j) ≠ l.bank a := by
  have hdiv := Nat.div_add_mod a (2 ^ l.addressRegWidth)
  have hsplit : a + j = 2 ^ l.addressRegWidth * (a / 2 ^ l.addressRegWidth + 1) := by
    rw [BpiLayout.inBank] at h
    rw [Nat.mul_add, Nat.mul_one]
    omega
  rw [BpiLayout.bank, BpiLayout.bank, hsplit, Nat.mul_div_cancel_left _ (Nat.two_pow_pos _)]
  have hpow : 2 ^ l.bankWidth = 2 * 2 ^ (l.bankWidth - 1) := by
    rw [← Nat.pow_succ', Nat.succ_eq_add_one, Nat.sub_add_cancel (Nat.pos_of_ne_zero hbanks)]
  intro heq
  have hpar : (a / 2 ^ l.addressRegWidth + 1) % 2 = a / 2 ^ l.addressRegWidth % 2 := by
    have hmod := congrArg (· % 2) heq
    simpa only [hpow, Nat.mod_mul_right_mod] using hmod
  omega

theorem location_mod_add (a j : Nat) : l.location (a % 2 ^ 32 + j) = l.location (a + j) := by
  rw [← location_mod (a % 2 ^ 32 + j), Nat.mod_add_mod, location_mod]

/-- The word of a chunk that is `k % 16` behind its start. -/
theorem location_chunkAddress (address k : Nat) :
    l.location (chunkAddress address k + k % 16) = l.location (address + k % BPI_WORDS_PER_READ) := by
  have hwords : BPI_WORDS_PER_READ = 33554432 := rfl
  rw [chunkAddress, location_mod_add, hwords]
  congr 1
  omega

theorem chunkLocation_eq (h : WithinBank l address k) :
    chunkLocation l address k = l.location (address + k % BPI_WORDS_PER_READ) := by
  rw [← location_chunkAddress, location_add h]
  rfl

/-- A chunk that goes over the end of its bank has a word in the next one. -/
theorem chunkLocation_ne (h : ¬WithinBank l address k) :
    ∃ k' ≤ k, k' < BPI_WORDS_PER_READ ∧ chunkLocation l address k' ≠ l.location (address + k') := by
  have hwords : BPI_WORDS_PER_READ = 33554432 := rfl
  obtain ⟨hbanks, hend⟩ := not_or.mp h
  have hlt : l.inBank (chunkAddress address k) < 2 ^ l.addressRegWidth := Nat.mod_lt _ (Nat.two_pow_pos _)
  obtain ⟨j, hj⟩ := Nat.exists_eq_add_of_le (Nat.le_of_lt hlt)
  have hle : j ≤ k % 16 := by omega
  generalize hk' : k % BPI_WORDS_PER_READ / 16 * 16 + j = k'
  have hmod : k' % BPI_WORDS_PER_READ = k' := by
    rw [hwords] at hk' ⊢
    omega
  have hbase : k' % BPI_WORDS_PER_READ / 16 * 16 = k % BPI_WORDS_PER_READ / 16 * 16 := by
    rw [hwords] at hk' ⊢
    omega
  have hrest : k' % 16 = j := by omega
  have haddress : chunkAddress address k' = chunkAddress address k := by
    rw [chunkAddress, chunkAddress, hbase]
  refine ⟨k', ?_, ?_, ?_⟩
  · rw [hwords] at hk'
    omega
  · rw [hwords] at hk' ⊢
    omega
  · intro heq
    have hplace := @location_chunkAddress l address k'
    rw [hmod, haddress, hrest, ← heq] at hplace
    have hbank := (BpiLocation.mk.inj hplace).1
    rw [haddress] at hbank
    exact bank_add_ne hbanks hj.symm hbank

/-- All reads are made at the places of their words: no chunk goes over the end of a bank, and the addresses
of a further shot are those of the first one. -/
theorem chunkLocations_iff (address n : Nat) :
    (∀ k < n, chunkLocation l address k = l.location (wordAddress address k)) ↔
      (∀ k < n, WithinBank l address k) ∧ (n ≤ BPI_WORDS_PER_READ ∨ l.addressWidth ≤ 25) := by
  have hwords : BPI_WORDS_PER_READ = 33554432 := rfl
  have hpow : (2 : Nat) ^ 25 = 33554432 := by decide
  have hplace : ∀ k, l.location (wordAddress address k) = l.location (address + k) := fun k => location_mod _
  constructor
  · intro hall
    refine ⟨fun k hk => ?_, ?_⟩
    · by_contra hno
      obtain ⟨k', hle, -, hne⟩ := chunkLocation_ne hno
      apply hne
      rw [hall k' (Nat.lt_of_le_of_lt hle hk), hplace]
    · rcases Nat.lt_or_ge BPI_WORDS_PER_READ n with hlt | hge
      · right
        have hfirst := hall BPI_WORDS_PER_READ hlt
        have hzero : l.location address = l.location (address + BPI_WORDS_PER_READ) := by
          rw [← hplace, ← hfirst]
          have hstart := @location_chunkAddress l address BPI_WORDS_PER_READ
          rw [Nat.mod_self, Nat.add_zero] at hstart
          rw [← hstart]
          have hrest : BPI_WORDS_PER_READ % 16 = 0 := rfl
          rw [chunkLocation, hrest, Nat.add_zero, Nat.add_zero, BpiLayout.location,
            BpiLayout.inBank, Nat.mod_mod]
        have hmod : address + 0 ≡ address + BPI_WORDS_PER_READ [MOD 2 ^ l.addressWidth] :=
          (location_eq_iff _ _).mp hzero
        have hdvd : 2 ^ l.addressWidth ∣ BPI_WORDS_PER_READ := by
          apply (Nat.modEq_zero_iff_dvd).mp
          exact (Nat.ModEq.add_left_cancel' address hmod).symm
        rw [hwords, ← hpow] at hdvd
        exact (Nat.pow_dvd_pow_iff_le_right (by decide)).mp hdvd
      · exact .inl hge
  · rintro ⟨hwithin, hshots⟩ k hk
    rw [chunkLocation_eq (hwithin k hk), hplace]
    rcases hshots with hle | hwidth
    · rw [Nat.mod_eq_of_lt (Nat.lt_of_lt_of_le hk hle)]
    · apply (location_eq_iff _ _).mpr
      have hdvd : 2 ^ l.addressWidth ∣ BPI_WORDS_PER_READ := by
        rw [hwords, ← hpow]
        exact Nat.pow_dvd_pow 2 hwidth
      have hk' : k % BPI_WORDS_PER_READ ≡ k [MOD 2 ^ l.addressWidth] := (Nat.mod_modEq k _).of_dvd hdvd
      exact hk'.add_left address

/-! ### How far a burst has come -/

/-- The bank of the word before, or the one that is selected when the burst begins. -/
def bankBefore (l : BpiLayout) (start : BpiState) : Nat → Nat
  | 0 => start.selectedBank
  | k + 1 => l.bank (chunkAddress start.address k)

/-- The first `n` words come in time, and the banks that they need can be selected. -/
structure DeviceAnswers (l : BpiLayout) (env : BpiEnvironment) (start : BpiState) (n : Nat) : Prop where
  words : ∀ k < n, InTime (env.polls k)
  banks : ∀ k < n, k % 16 = 0 → l.bank (chunkAddress start.address k) ≠ bankBefore l start k →
    switchBank env k

/-- The device is in the bank that the controller has selected, or the first chunk selects another one. -/
def BankKnown (l : BpiLayout) (start : BpiState) : Prop :=
  start.selectedBank = start.bank ∨ l.bank (chunkAddress start.address 0) ≠ start.selectedBank

/-- Up to the word `n` no chunk has failed. -/
structure BpiProgress (l : BpiLayout) (env : BpiEnvironment) (start : BpiState) (n : Nat) (s : BpiState) :
    Prop where
  address : s.address = start.address
  flags : s.flags = start.flags
  failed : s.failed = false
  answers : DeviceAnswers l env start n
  selectedBank : s.selectedBank = bankBefore l start n
  begins : n = 0 → s.readFifo = List.replicate env.earlier .earlier ∧ s.bank = start.bank
  /-- What comes first if the FIFO or the bank is not as it should be. -/
  stale : 0 < n → env.earlier ≠ 0 → s.buffer 0 = some .earlier
  wrongBank : 0 < n → env.earlier = 0 → ¬BankKnown l start → ∃ a, s.buffer 0 = some (.read ⟨start.bank, a⟩)
  taken : env.earlier = 0 → s.readFifo = []
  bank : 0 < n → BankKnown l start → s.bank = s.selectedBank
  words : env.earlier = 0 → BankKnown l start → ∀ k < n,
    s.buffer k = some (.read (chunkLocation l start.address k))

variable {start s s' : BpiState} {length : Nat}

theorem DeviceAnswers.mono {m : Nat} (h : DeviceAnswers l env start n) (hm : m ≤ n) :
    DeviceAnswers l env start m :=
  ⟨fun k hk => h.words k (Nat.lt_of_lt_of_le hk hm), fun k hk => h.banks k (Nat.lt_of_lt_of_le hk hm)⟩

/-- The words of the chunk that starts with the word `n`. -/
theorem chunkAddress_add (hn : n % 16 = 0) {j : Nat} (hj : j < 16) :
    chunkAddress address (n + j) = chunkAddress address n := by
  have hwords : BPI_WORDS_PER_READ = 33554432 := rfl
  have hbase : (n + j) % BPI_WORDS_PER_READ / 16 * 16 = n % BPI_WORDS_PER_READ / 16 * 16 := by
    rw [hwords]
    omega
  rw [chunkAddress, chunkAddress, hbase]

theorem chunkAddress_start (hn : n % 16 = 0) :
    chunkAddress address n = (address + n % BPI_WORDS_PER_READ) % 2 ^ 32 := by
  have hwords : BPI_WORDS_PER_READ = 33554432 := rfl
  rw [chunkAddress, hwords]
  congr 1
  omega

theorem bankBefore_add (hn : n % 16 = 0) (hlength : 0 < length) (hmax : length ≤ 16) :
    bankBefore l start (n + length) = l.bank (chunkAddress start.address n) := by
  obtain ⟨j, rfl⟩ := Nat.exists_eq_add_of_lt hlength
  rw [Nat.zero_add, ← Nat.add_assoc, bankBefore, chunkAddress_add hn (by omega)]

theorem getElem_issuedReads {bank adr j : Nat} (hj : j < length) :
    (issuedReads l bank adr length)[j]? =
      some (.read ⟨bank, (l.inBank adr + j) % 2 ^ l.addressRegWidth⟩) := by
  rw [issuedReads, List.getElem?_map, List.getElem?_range hj]
  rfl

/-- A chunk that succeeds takes the burst further. -/
theorem BpiProgress.chunk (h : BpiProgress l env start n s) (hn : n % 16 = 0) (hlength : 0 < length)
    (hmax : length ≤ 16) (hanswers : DeviceAnswers l env start (n + length))
    (hread : ChunkRead l s s' (chunkAddress start.address n) n length) :
    BpiProgress l env start (n + length) s' := by
  have hselected : s'.selectedBank = bankBefore l start (n + length) := by
    rw [hread.selectedBank, bankBefore_add hn hlength hmax]
  have hbank : BankKnown l start → s'.bank = s'.selectedBank := by
    intro hknown
    rw [hread.bank, hread.selectedBank]
    split_ifs with hsame
    · rcases Nat.eq_zero_or_pos n with rfl | hpos
      · have hstart := h.selectedBank
        rw [bankBefore] at hstart
        rw [hstart] at hsame
        rw [(h.begins rfl).2, hsame]
        exact (hknown.resolve_right (not_not.mpr hsame)).symm
      · rw [h.bank hpos hknown, hsame]
    · rfl
  have hkept : ∀ k < n, s'.buffer k = s.buffer k := by
    intro k hk
    rw [hread.buffer, if_neg (by omega)]
  have hfirst : n = 0 → s'.buffer 0 = (s.readFifo ++ issuedReads l s'.bank (chunkAddress start.address 0)
      length)[0]? := by
    rintro rfl
    rw [hread.buffer, if_pos (by omega)]
  refine ⟨hread.address.trans h.address, hread.flags.trans h.flags, hread.failed.trans h.failed, hanswers,
    hselected, fun hzero => by omega, fun _ hearlier => ?_, fun _ hnone hunknown => ?_, fun hnone => ?_,
    fun _ => hbank, fun hnone hknown k hk => ?_⟩
  · rcases Nat.eq_zero_or_pos n with rfl | hpos
    · obtain ⟨m, hm⟩ := Nat.exists_eq_succ_of_ne_zero hearlier
      rw [hfirst rfl, (h.begins rfl).1, hm, List.replicate_succ]
      rfl
    · rw [hkept 0 hpos]
      exact h.stale hpos hearlier
  · rcases Nat.eq_zero_or_pos n with rfl | hpos
    · have hsame : l.bank (chunkAddress start.address 0) = s.selectedBank := by
        rw [h.selectedBank]
        exact not_not.mp (not_or.mp hunknown).2
      have hdevice := hread.bank
      rw [if_pos hsame, (h.begins rfl).2] at hdevice
      rw [hfirst rfl, h.taken hnone, List.nil_append, getElem_issuedReads hlength, hdevice]
      exact ⟨_, rfl⟩
    · rw [hkept 0 hpos]
      exact h.wrongBank hpos hnone hunknown
  · rw [hread.readFifo, h.taken hnone, List.nil_append]
    apply List.drop_eq_nil_of_le
    rw [length_issuedReads]
  · rcases Nat.lt_or_ge k n with hlt | hge
    · rw [hkept k hlt]
      exact h.words hnone hknown k hlt
    · obtain ⟨j, rfl⟩ := Nat.exists_eq_add_of_le hge
      have hj : j < length := by omega
      have hrest : (n + j) % 16 = j := by omega
      rw [hread.buffer, if_pos ⟨hge, hk⟩, h.taken hnone, List.nil_append, Nat.add_sub_cancel_left,
        getElem_issuedReads hj, hbank hknown, hread.selectedBank, chunkLocation, hrest,
        chunkAddress_add hn (by omega)]

/-- A chunk succeeds if and only if the device answers for it. -/
theorem BpiProgress.answered (h : BpiProgress l env start n s) (hn : n % 16 = 0) (hlength : 0 < length)
    (hmax : length ≤ 16) :
    let r := readData l env s (chunkAddress start.address n) n length
    (r.2 = 0 → BpiProgress l env start (n + length) r.1) ∧
      (r.2 ≠ 0 → ¬DeviceAnswers l env start (n + length)) := by
  dsimp only
  by_cases hok : (l.bank (chunkAddress start.address n) ≠ s.selectedBank → switchBank env n) ∧
      ∀ j < length, InTime (env.polls (n + j))
  · obtain ⟨s', hs', hread⟩ := readData_ok hlength hok.1 hok.2
    have hanswers : DeviceAnswers l env start (n + length) := by
      refine ⟨fun k hk => ?_, fun k hk hstart hne => ?_⟩
      · rcases Nat.lt_or_ge k n with hlt | hge
        · exact h.answers.words k hlt
        · obtain ⟨j, rfl⟩ := Nat.exists_eq_add_of_le hge
          exact hok.2 j (by omega)
      · rcases Nat.lt_or_ge k n with hlt | hge
        · exact h.answers.banks k hlt hstart hne
        · obtain rfl : k = n := by omega
          apply hok.1
          rw [h.selectedBank]
          exact hne
    rw [hs']
    exact ⟨fun _ => h.chunk hn hlength hmax hanswers hread, fun hne => absurd rfl hne⟩
  · have herr : (readData l env s (chunkAddress start.address n) n length).2 ≠ 0 := by
      apply readData_error hlength
      rcases not_and_or.mp hok with hswitch | htime
      · left
        exact Classical.not_imp.mp hswitch
      · right
        by_contra hno
        exact htime fun j hj => by_contra fun hlate => hno ⟨j, hj, hlate⟩
    refine ⟨fun hzero => absurd hzero herr, fun _ hanswers => hok ⟨fun hne => ?_, fun j hj => ?_⟩⟩
    · apply hanswers.banks n (by omega) hn
      rw [← h.selectedBank]
      exact hne
    · exact hanswers.words (n + j) (by omega)

/-- The loop over the chunks of a shot. -/
theorem BpiProgress.shot (fuel : Nat) : ∀ (first wordsLeft index : Nat) (s : BpiState),
    BpiProgress l env start (first + index) s → wordsLeft ≤ fuel → first % BPI_WORDS_PER_READ = 0 →
    (wordsLeft = 0 ∨ index % 16 = 0) → index + wordsLeft ≤ BPI_WORDS_PER_READ →
    let r := readChunks l env fuel s first wordsLeft index
    (r.2 = 0 → BpiProgress l env start (first + (index + wordsLeft)) r.1) ∧
      (r.2 ≠ 0 → ¬DeviceAnswers l env start (first + (index + wordsLeft))) := by
  have hwords : BPI_WORDS_PER_READ = 33554432 := rfl
  have hfifo : BPI_READ_FIFO_LENGTH = 16 := rfl
  induction fuel with
  | zero =>
    intro first wordsLeft index s h hfuel _ _ _
    obtain rfl := Nat.le_zero.mp hfuel
    exact ⟨fun _ => h, fun hne => absurd rfl hne⟩
  | succ fuel ih =>
    intro first wordsLeft index s h hfuel hfirst hindex hfit
    dsimp only
    unfold readChunks
    by_cases hleft : 0 < wordsLeft
    · rw [if_pos hleft]
      have hn : (first + index) % 16 = 0 := by
        rw [hwords] at hfirst
        omega
      have hmod : (first + index) % BPI_WORDS_PER_READ = index := by
        rw [hwords] at hfirst hfit ⊢
        omega
      have hadr : (s.address + index) % 2 ^ 32 = chunkAddress start.address (first + index) := by
        rw [chunkAddress_start hn, hmod, h.address]
      generalize hlength : (if BPI_READ_FIFO_LENGTH > wordsLeft then wordsLeft else BPI_READ_FIFO_LENGTH) = length
      have hbounds : 0 < length ∧ length ≤ 16 ∧ length ≤ wordsLeft ∧
          (wordsLeft - length = 0 ∨ length = 16) := by
        rw [hfifo] at hlength
        split_ifs at hlength <;> omega
      obtain ⟨hpos, hmax, hle, hfull⟩ := hbounds
      obtain ⟨hok, herr⟩ := h.answered hn hpos hmax
      dsimp only
      rw [hadr]
      generalize readData l env s (chunkAddress start.address (first + index)) (first + index) length =
        r at hok herr ⊢
      obtain ⟨s', ret⟩ := r
      dsimp only at hok herr ⊢
      by_cases hret : ret = 0
      · have hnext : BpiProgress l env start (first + (index + length)) s' := by
          rw [← Nat.add_assoc]
          exact hok hret
        have hsum : index + wordsLeft = index + length + (wordsLeft - length) := by omega
        rw [if_pos hret, hsum]
        apply ih _ _ _ _ hnext (by omega) hfirst ?_ (by omega)
        rcases hfull with hnone | hsixteen
        · exact .inl hnone
        · right
          omega
      · rw [if_neg hret]
        refine ⟨fun hzero => absurd hzero hret, fun _ hanswers => herr hret (hanswers.mono (by omega))⟩
    · obtain rfl := Nat.eq_zero_of_not_pos hleft
      rw [if_neg hleft]
      exact ⟨fun _ => h, fun hne => absurd rfl hne⟩

/-- All has gone well up to the word `n`, or a chunk has failed. -/
def ReadUpTo (l : BpiLayout) (env : BpiEnvironment) (start : BpiState) (n most : Nat) (s : BpiState) : Prop :=
  BpiProgress l env start n s ∨ (s.failed = true ∧ ¬DeviceAnswers l env start most)

/-- A shot returns zero, whatever becomes of its chunks. -/
theorem ReadUpTo.shot {i m : Nat} (h : ReadUpTo l env start (i * BPI_WORDS_PER_READ) n s)
    (hflags : start.flags &&& BPI_OPERATION_READDATA ≠ 0) (hm : 0 < m) (hmax : m ≤ BPI_WORDS_PER_READ)
    (hfit : i * BPI_WORDS_PER_READ + m ≤ n) :
    (bpiReadShot l env s (2 * (i * BPI_WORDS_PER_READ)) (2 * m)).2 = 0 ∧
      ReadUpTo l env start (i * BPI_WORDS_PER_READ + m) n
        (bpiReadShot l env s (2 * (i * BPI_WORDS_PER_READ)) (2 * m)).1 := by
  have hhalf : ∀ x, 2 * x / 2 = x := fun x => Nat.mul_div_cancel_left x (Nat.succ_pos 1)
  unfold bpiReadShot
  rw [if_neg (by omega), hhalf, hhalf]
  rcases h with hgood | ⟨hfailed, hanswers⟩
  · rw [if_pos (hgood.flags ▸ hflags)]
    have hgood' : BpiProgress l env start (i * BPI_WORDS_PER_READ + 0) s := by rwa [Nat.add_zero]
    have hfirst : i * BPI_WORDS_PER_READ % BPI_WORDS_PER_READ = 0 := Nat.mul_mod_left _ _
    have hlast : 0 + m ≤ BPI_WORDS_PER_READ := by omega
    obtain ⟨hok, herr⟩ := BpiProgress.shot m _ m 0 s hgood' (Nat.le_refl m) hfirst
      (.inr (Nat.zero_mod 16)) hlast
    rw [Nat.zero_add] at hok herr
    generalize readChunks l env m s (i * BPI_WORDS_PER_READ) m 0 = r at hok herr ⊢
    obtain ⟨s', ret⟩ := r
    dsimp only at hok herr ⊢
    refine ⟨rfl, ?_⟩
    by_cases hret : ret = 0
    · left
      have hsame : { s' with failed := s.failed || decide (ret ≠ 0) } = s' := by
        have hfalse : (s.failed || decide (ret ≠ 0)) = s'.failed := by
          rw [hgood.failed, (hok hret).failed, hret]
          rfl
        rw [hfalse]
      rw [hsame]
      exact hok hret
    · right
      refine ⟨?_, fun hanswers => herr hret (hanswers.mono hfit)⟩
      rw [decide_eq_true hret, Bool.or_true]
  · split_ifs
    · refine ⟨rfl, .inr ⟨?_, hanswers⟩⟩
      dsimp only
      rw [hfailed, Bool.true_or]
    · exact ⟨rfl, .inr ⟨hfailed, hanswers⟩⟩

/-! ### The shots of a burst -/

/-- A shot has the words that are left, but not more than fit into one. -/
theorem shot_words (n j : Nat) :
    Pieces.length bpiBase.maxBytesPerRead.val (2 * n) j =
        2 * min (n - j * BPI_WORDS_PER_READ) BPI_WORDS_PER_READ ∧
      j * bpiBase.maxBytesPerRead.val = 2 * (j * BPI_WORDS_PER_READ) := by
  have hmost : bpiBase.maxBytesPerRead.val = 67108864 := rfl
  have hwords : BPI_WORDS_PER_READ = 33554432 := rfl
  rw [Pieces.length, hmost, hwords]
  omega

theorem concat_prefix_range {α : Type} {f : Nat → α} {before : List α} {a : α} {j : Nat}
    (h : before ++ [a] <+: (List.range j).map f) : before.length < j ∧ a = f before.length := by
  have hlast : before.length < (before ++ [a]).length := by
    rw [List.length_append]
    exact Nat.lt_succ_self _
  have hlt : before.length < j := by
    have hle := h.length_le
    rw [List.length_map, List.length_range] at hle
    exact Nat.lt_of_lt_of_le hlast hle
  refine ⟨hlt, ?_⟩
  have hget := h.getElem hlast
  rwa [List.getElem_concat_length rfl, List.getElem_map, List.getElem_range] at hget

/-- Each call for a request or a result is answered with zero, and brings the burst further. -/
theorem bpiStep_reads {calls : List BurstCall} {call : BurstCall} {j : Nat}
    (h : ReadUpTo l env start (min n ((collected calls).length * BPI_WORDS_PER_READ)) n s)
    (hflags : start.flags &&& BPI_OPERATION_READDATA ≠ 0) (hreads : call.hook.ReadsOnly)
    (hj : j ≤ Pieces.count bpiBase.maxBytesPerRead.val (2 * n))
    (hpieces : collected (calls ++ [call]) <+: (List.range j).map fun i =>
      (i * bpiBase.maxBytesPerRead.val, Pieces.length bpiBase.maxBytesPerRead.val (2 * n) i)) :
    ∃ s', bpiStep l env s call = some (s', 0) ∧
      ReadUpTo l env start (min n ((collected (calls ++ [call])).length * BPI_WORDS_PER_READ)) n s' := by
  unfold bpiStep
  rcases hreads with ⟨numBytes, hhook⟩ | ⟨buf, numBytes, hhook⟩
  · have hsame : collected (calls ++ [call]) = collected calls := by
      simp [collected, hhook, HookCall.collected]
    rw [hhook, hsame]
    exact ⟨s, rfl, h⟩
  · have hnext : collected (calls ++ [call]) = collected calls ++ [(buf, numBytes)] := by
      simp [collected, hhook, HookCall.collected]
    rw [hnext] at hpieces ⊢
    obtain ⟨hlt, hpiece⟩ := concat_prefix_range hpieces
    rw [List.length_append, List.length_singleton, hhook]
    generalize (collected calls).length = i at h hlt hpiece ⊢
    obtain ⟨hlength, hplace⟩ := shot_words n i
    rw [hlength, hplace, Prod.mk.injEq] at hpiece
    obtain ⟨rfl, rfl⟩ := hpiece
    have hmore : i * bpiBase.maxBytesPerRead.val < 2 * n :=
      (Pieces.lt_count_iff bpiBase.maxBytesPerRead.pos).mp (Nat.lt_of_lt_of_le hlt hj)
    have hleft : i * BPI_WORDS_PER_READ < n := by omega
    have hpos : 0 < BPI_WORDS_PER_READ := by decide
    have hend : min n ((i + 1) * BPI_WORDS_PER_READ) =
        i * BPI_WORDS_PER_READ + min (n - i * BPI_WORDS_PER_READ) BPI_WORDS_PER_READ := by
      rw [Nat.succ_mul]
      omega
    rw [Nat.min_eq_right (Nat.le_of_lt hleft)] at h
    obtain ⟨hret, hprogress⟩ := h.shot hflags (m := min (n - i * BPI_WORDS_PER_READ) BPI_WORDS_PER_READ)
      (by omega) (Nat.min_le_right _ _) (by omega)
    rw [hend]
    dsimp only
    generalize bpiReadShot l env s _ _ = r at hret hprogress ⊢
    obtain ⟨s', ret⟩ := r
    obtain rfl : ret = 0 := hret
    exact ⟨s', rfl, hprogress⟩

section
variable {first last call : BurstCall} {body before : List BurstCall} {j : Nat} {a : Int}
  (hstart : BpiProgress l env start 0 start) (hflags : start.flags &&& BPI_OPERATION_READDATA ≠ 0)
  (hbody : ∀ call ∈ body, call.hook.ReadsOnly) (hj : j ≤ Pieces.count bpiBase.maxBytesPerRead.val (2 * n))
  (hpieces : collected body = (List.range j).map fun i =>
    (i * bpiBase.maxBytesPerRead.val, Pieces.length bpiBase.maxBytesPerRead.val (2 * n) i))
include hstart hflags hbody hj hpieces

/-- The calls for the requests and the results, from the state that the flags have left. -/
theorem replay_reads (hp : before <+: body) : ∃ r, replay (bpiStep l env) (start, a) before = some r ∧
    ReadUpTo l env start (min n ((collected before).length * BPI_WORDS_PER_READ)) n r.1 := by
  apply Replay.replay_returns
    (I := fun calls s => ReadUpTo l env start (min n ((collected calls).length * BPI_WORDS_PER_READ)) n s) _ _ hp
  · left
    have hzero : min n ((collected []).length * BPI_WORDS_PER_READ) = 0 := by
      rw [collected, List.filterMap_nil, List.length_nil, Nat.zero_mul, Nat.min_zero]
    rw [hzero]
    exact hstart
  · intro calls call s hp h
    have hmem := hp.subset (List.mem_append_right calls List.mem_cons_self)
    have hprefix : collected (calls ++ [call]) <+: collected body := hp.filterMap _
    rw [hpieces] at hprefix
    obtain ⟨s', hs', h'⟩ := bpiStep_reads h hflags (hbody call hmem) hj hprefix
    exact ⟨_, hs', h'⟩

/-- None of the calls reports an error, when that for the flags does not. -/
theorem bpiCalls_answered (hfirst : bpiStep l env s first = some (start, 0)) (hlast : last.hook.checked = false)
    (hp : before ++ [call] <+: first :: body ++ [last]) (hchecked : call.hook.checked = true) :
    ∃ r r', replay (bpiStep l env) (s, STATUS_OK) before = some r ∧ bpiStep l env r.1 call = some r' ∧
      menIsError r'.2 = false := by
  have hzero : menIsError 0 = false := by decide
  rcases List.prefix_concat_iff.mp hp with heq | hp
  · obtain ⟨-, rfl⟩ := List.append_singleton_inj.mp heq
    rw [hlast] at hchecked
    exact absurd hchecked Bool.false_ne_true
  · cases before with
    | nil =>
      obtain ⟨rfl, -⟩ := List.cons_prefix_cons.mp hp
      exact ⟨_, _, rfl, hfirst, hzero⟩
    | cons call' before =>
      obtain ⟨rfl, hbefore⟩ := List.cons_prefix_cons.mp hp
      have hfront := (List.prefix_append before [call]).trans hbefore
      obtain ⟨r, hr, hI⟩ := @replay_reads l env n start body before j 0 hstart hflags hbody hj hpieces hfront
      have hmem := hbefore.subset (List.mem_append_right before List.mem_cons_self)
      have hprefix : collected (before ++ [call]) <+: collected body := hbefore.filterMap _
      rw [hpieces] at hprefix
      obtain ⟨s₂, hs₂, -⟩ := bpiStep_reads hI hflags (hbody call hmem) hj hprefix
      refine ⟨r, (s₂, 0), ?_, hs₂, hzero⟩
      rw [replay, hfirst]
      exact hr

end

/-- Every hook returns, so a burst does. -/
theorem bpiReadBurst_returns (l : BpiLayout) (env : BpiEnvironment) (s : BpiState) (st : BurstState)
    (flags : Word) (size : Nat) : ∃ r, bpiReadBurst l env s st flags size = some r := by
  have hstep : ∀ s call, ∃ r, bpiStep l env s call = some r := by
    intro s call
    unfold bpiStep
    cases call.hook with
    | _ => exact ⟨_, rfl⟩
  apply machineBurst_returns (I := fun _ _ => True) trivial
  intro before call s₁ _ _
  obtain ⟨r, hr⟩ := hstep s₁ call
  exact ⟨r, hr, trivial⟩

variable {st : BurstState} {flags : Word}

/-- A wait for the flags that fails makes the burst fail. -/
theorem bpiReadBurst_refused (size : Nat)
    (hpre : bpiHandlePreBurstFlags env s (flags ||| BPI_OPERATION_READDATA) = (start, -1)) :
    ∃ st' s', bpiReadBurst l env s st flags size = some (STATUS_ERROR, st', s') := by
  obtain ⟨⟨ret, st', s'⟩, h⟩ := bpiReadBurst_returns l env s st flags size
  obtain ⟨hburst, -, -⟩ := machineBurst_eq_some h
  have hends := ctrlReadBurst_ends bpiBase (machineHooks (bpiStep l env) s) st
    (flags ||| BPI_OPERATION_READDATA) size
  obtain ⟨first, body, last, hcalls, hfirst, -, -⟩ := ctrlReadBurst_shape bpiBase
    (machineHooks (bpiStep l env) s) st (flags ||| BPI_OPERATION_READDATA) size
  rw [hburst] at hends hcalls
  dsimp only at hends hcalls
  have hp : [] ++ [first] <+: st'.calls := ⟨body ++ [last], by rw [hcalls]; rfl⟩
  have hcall : bpiStep l env s first = some (start, -1) := by
    unfold bpiStep
    rw [hfirst]
    exact congrArg some hpre
  have hchecked : first.hook.checked = true := by
    rw [hfirst]
    rfl
  have hbefore : replay (bpiStep l env) (s, STATUS_OK) [] = some (s, STATUS_OK) := rfl
  have herr : menIsError (-1) = true := by decide
  have hret : ret = STATUS_ERROR := machine_error hends hp hbefore hcall hchecked herr
  rw [hret] at h
  exact ⟨st', s', h⟩

/-- Otherwise it succeeds, whatever becomes of its chunks. -/
theorem bpiReadBurst_succeeds
    (hpre : bpiHandlePreBurstFlags env s (flags ||| BPI_OPERATION_READDATA) = (start, 0))
    (hstart : BpiProgress l env start 0 start)
    (hflags : start.flags &&& BPI_OPERATION_READDATA ≠ 0) (n : Nat) :
    ∃ st' s₁ s', bpiReadBurst l env s st flags (2 * n) = some (STATUS_OK, st', s') ∧
      ReadUpTo l env start n n s₁ ∧ s'.buffer = s₁.buffer ∧ s'.failed = s₁.failed := by
  obtain ⟨⟨ret, st', s'⟩, h⟩ := bpiReadBurst_returns l env s st flags (2 * n)
  obtain ⟨hburst, a, hreplay⟩ := machineBurst_eq_some h
  have hends := ctrlReadBurst_ends bpiBase (machineHooks (bpiStep l env) s) st
    (flags ||| BPI_OPERATION_READDATA) (2 * n)
  obtain ⟨first, body, last, hcalls, hfirst, hbody, hlast⟩ := ctrlReadBurst_shape bpiBase
    (machineHooks (bpiStep l env) s) st (flags ||| BPI_OPERATION_READDATA) (2 * n)
  obtain ⟨j, hj, hcollected, hall⟩ := ctrlReadBurst_collected bpiBase
    (machineHooks (bpiStep l env) s) st (flags ||| BPI_OPERATION_READDATA) (2 * n)
  rw [hburst] at hends hcalls hcollected hall
  dsimp only at hends hcalls hcollected hall
  have hlastNone : last.hook.collected = none ∧ last.hook.checked = false := by
    rcases hlast with hpost | habort
    · rw [hpost]
      exact ⟨rfl, rfl⟩
    · rw [habort]
      exact ⟨rfl, rfl⟩
  have hpieces : collected st'.calls = collected body := by
    have hfirstNone : first.hook.collected = none := by
      rw [hfirst]
      rfl
    rw [hcalls]
    simp [collected, hfirstNone, hlastNone.1]
  rw [hpieces] at hcollected
  have hcall : bpiStep l env s first = some (start, 0) := by
    unfold bpiStep
    rw [hfirst]
    exact congrArg some hpre
  have hok : ret = STATUS_OK := by
    apply machine_ok hends
    intro before call hp hchecked
    rw [hcalls] at hp
    exact bpiCalls_answered hstart hflags hbody hj hcollected hcall hlastNone.2 hp hchecked
  obtain ⟨r, hr, hread⟩ :=
    @replay_reads l env n start body body j 0 hstart hflags hbody hj hcollected (List.prefix_refl _)
  have hcount : j = Pieces.count bpiBase.maxBytesPerRead.val (2 * n) := hall hok
  have hfull : min n ((collected body).length * BPI_WORDS_PER_READ) = n := by
    have hge : 2 * n ≤ j * bpiBase.maxBytesPerRead.val := by
      rw [hcount]
      exact Pieces.count_mul_ge bpiBase.maxBytesPerRead.pos
    rw [(shot_words n j).2] at hge
    rw [hcollected, List.length_map, List.length_range]
    omega
  rw [hfull] at hread
  rw [hcalls] at hreplay
  obtain ⟨r₁, hr₁, hend⟩ := Replay.replay_concat_eq_some hreplay
  rw [replay, hcall, Option.bind_some, hr] at hr₁
  obtain rfl := Option.some.inj hr₁
  rw [hok] at h
  refine ⟨st', r.1, s', h, hread, ?_⟩
  unfold bpiStep at hend
  rcases hlast with hpost | habort
  · rw [hpost] at hend
    obtain ⟨rfl, -⟩ := Prod.mk.inj (Option.some.inj hend)
    dsimp only
    split_ifs
    · exact ⟨rfl, rfl⟩
    · exact ⟨rfl, rfl⟩
  · rw [habort] at hend
    obtain ⟨rfl, -⟩ := Prod.mk.inj (Option.some.inj hend)
    exact ⟨rfl, rfl⟩

/-! ### Bursts that deliver -/

/-- A burst that succeeds has read each word at its own place, and one with a chunk that fails does not succeed. -/
def BpiDelivers (l : BpiLayout) (env : BpiEnvironment) (s : BpiState) (st : BurstState)
    (flags : Word) (n : Nat) :
    Prop :=
  ∃ ret st' s', bpiReadBurst l env s st flags (2 * n) = some (ret, st', s') ∧
    (ret = STATUS_OK → ∀ k < n, s'.buffer k = some (.read (l.location (wordAddress s.address k)))) ∧
      (s'.failed = true → ret ≠ STATUS_OK)

/-- The controller and the device when the flags have been handled. -/
def bpiBegun (env : BpiEnvironment) (flags : Word) (selectedBank bank address : Nat) : BpiState :=
  { bpiStart (if flags &&& BPI_OPERATION_SELECT ≠ 0 then BPI_NO_BANK else selectedBank) bank address with
    flags := flags ||| BPI_OPERATION_READDATA
    readFifo := List.replicate env.earlier .earlier }

/-- The wait for the flash to be ready fails. -/
def WaitFails (env : BpiEnvironment) (flags : Word) : Prop := flags &&& BPI_OPERATION_WAITREADY ≠ 0 ∧
    ¬env.ready

instance (env : BpiEnvironment) (flags : Word) : Decidable (WaitFails env flags) :=
  inferInstanceAs (Decidable (_ ∧ _))

variable {selectedBank bank : Nat}

theorem or_readData {mask : Word} (h : BPI_OPERATION_READDATA &&& mask = 0) :
    (flags ||| BPI_OPERATION_READDATA) &&& mask = flags &&& mask := by
  rw [BitVec.and_or_distrib_right, h]
  exact BitVec.or_zero

theorem begun_readData (env : BpiEnvironment) (flags : Word) (selectedBank bank address : Nat) :
    (bpiBegun env flags selectedBank bank address).flags &&& BPI_OPERATION_READDATA ≠ 0 := by
  change (flags ||| BPI_OPERATION_READDATA) &&& BPI_OPERATION_READDATA ≠ 0
  intro h
  have hbit := congrArg (fun w : Word => w.getLsbD 7) h
  rw [BitVec.and_or_distrib_right] at hbit
  simp [BPI_OPERATION_READDATA] at hbit

theorem handlePreBurstFlags_start (env : BpiEnvironment) (flags : Word) (selectedBank bank address : Nat) :
    bpiHandlePreBurstFlags env (bpiStart selectedBank bank address) (flags ||| BPI_OPERATION_READDATA) =
      (bpiBegun env flags selectedBank bank address, if WaitFails env flags then -1 else 0) := by
  have hselect : BPI_OPERATION_READDATA &&& BPI_OPERATION_SELECT = 0 := by decide
  have hwait : BPI_OPERATION_READDATA &&& BPI_OPERATION_WAITREADY = 0 := by decide
  unfold bpiHandlePreBurstFlags bpiBegun
  rw [or_readData hselect, or_readData hwait]
  by_cases h : flags &&& BPI_OPERATION_SELECT ≠ 0
  · dsimp only
    rw [if_pos h, if_pos h]
    rfl
  · dsimp only
    rw [if_neg h, if_neg h]
    rfl

theorem begun_progress (l : BpiLayout) (env : BpiEnvironment) (flags : Word)
    (selectedBank bank address : Nat) :
    BpiProgress l env (bpiBegun env flags selectedBank bank address) 0
      (bpiBegun env flags selectedBank bank address) where
  address := rfl
  flags := rfl
  failed := rfl
  answers := ⟨fun k hk => absurd hk (Nat.not_lt_zero k), fun k hk => absurd hk (Nat.not_lt_zero k)⟩
  selectedBank := rfl
  begins _ := ⟨rfl, rfl⟩
  stale hpos := absurd hpos (Nat.lt_irrefl 0)
  wrongBank hpos := absurd hpos (Nat.lt_irrefl 0)
  taken hnone := by
    rw [bpiBegun, hnone]
    rfl
  bank hpos := absurd hpos (Nat.lt_irrefl 0)
  words _ _ k hk := absurd hk (Nat.not_lt_zero k)

/-- When nothing has failed, the words are at their places if the FIFO was empty, the bank known, and all reads
are made at the places of their words. -/
theorem BpiProgress.delivered_iff (h : BpiProgress l env start n s) (hpos : 0 < n) :
    (∀ k < n, s.buffer k = some (.read (l.location (wordAddress start.address k)))) ↔
      env.earlier = 0 ∧ BankKnown l start ∧ (∀ k < n, WithinBank l start.address k) ∧
        (n ≤ BPI_WORDS_PER_READ ∨ l.addressWidth ≤ 25) := by
  rw [← chunkLocations_iff]
  constructor
  · intro hall
    have hearlier : env.earlier = 0 := by
      by_contra hsome
      have hfirst := (h.stale hpos hsome).symm.trans (hall 0 hpos)
      simp at hfirst
    have hknown : BankKnown l start := by
      by_contra hunknown
      obtain ⟨a, ha⟩ := h.wrongBank hpos hearlier hunknown
      have hfirst := ha.symm.trans (hall 0 hpos)
      obtain ⟨hbank, -⟩ := BpiLocation.mk.inj (BpiAnswer.read.inj (Option.some.inj hfirst))
      obtain ⟨hdevice, hsame⟩ := not_or.mp hunknown
      apply hdevice
      rw [hbank, ← not_not.mp hsame]
      rfl
    refine ⟨hearlier, hknown, fun k hk => ?_⟩
    have hword := (h.words hearlier hknown k hk).symm.trans (hall k hk)
    exact BpiAnswer.read.inj (Option.some.inj hword)
  · rintro ⟨hearlier, hknown, hplaces⟩ k hk
    rw [h.words hearlier hknown k hk, hplaces k hk]

/-- A read of the flash delivers if and only if its wait for the flash fails, it is empty, or the device answers
in time, with nothing left in the FIFO and in the bank that is selected, no chunk goes over the end of its bank,
and the addresses of its shots are right. A chunk that fails does not make the burst fail. -/
theorem bpi_delivers_iff (l : BpiLayout) (env : BpiEnvironment) (st : BurstState) (flags : Word)
    (selectedBank bank address n : Nat) :
    BpiDelivers l env (bpiStart selectedBank bank address) st flags n ↔
      WaitFails env flags ∨ n = 0 ∨
        (DeviceAnswers l env (bpiBegun env flags selectedBank bank address) n ∧ env.earlier = 0 ∧
          BankKnown l (bpiBegun env flags selectedBank bank address) ∧ (∀ k < n, WithinBank l address k) ∧
          (n ≤ BPI_WORDS_PER_READ ∨ l.addressWidth ≤ 25)) := by
  have hpre := handlePreBurstFlags_start env flags selectedBank bank address
  by_cases hwait : WaitFails env flags
  · rw [if_pos hwait] at hpre
    have hne : STATUS_ERROR ≠ STATUS_OK := by decide
    obtain ⟨st', s', hburst⟩ := @bpiReadBurst_refused l env _ _ st flags (2 * n) hpre
    exact ⟨fun _ => .inl hwait, fun _ => ⟨_, st', s', hburst, fun hok => absurd hok hne, fun _ => hne⟩⟩
  · rw [if_neg hwait] at hpre
    have hstart := begun_progress l env flags selectedBank bank address
    have hflags := begun_readData env flags selectedBank bank address
    obtain ⟨st', s₁, s', hburst, hread, hbuffer, hfailed⟩ :=
      @bpiReadBurst_succeeds l env _ _ st flags hpre hstart hflags n
    constructor
    · rintro ⟨ret, st'', s'', hburst', hwords, hchunks⟩
      rw [hburst] at hburst'
      obtain ⟨rfl, rfl, rfl⟩ := hburst'
      right
      rcases Nat.eq_zero_or_pos n with hzero | hpos
      · exact .inl hzero
      right
      rcases hread with hgood | ⟨hfail, -⟩
      · refine ⟨hgood.answers, (hgood.delivered_iff hpos).mp fun k hk => ?_⟩
        rw [← hbuffer]
        exact hwords rfl k hk
      · exact absurd rfl (hchunks (hfailed.trans hfail))
    · intro hcond
      refine ⟨STATUS_OK, st', s', hburst, fun _ k hk => ?_, fun hfail => ?_⟩
      · obtain ⟨hanswers, hrest⟩ :=
          (hcond.resolve_left hwait).resolve_left (Nat.ne_of_gt (Nat.lt_of_le_of_lt (Nat.zero_le k) hk))
        rcases hread with hgood | ⟨-, hno⟩
        · rw [hbuffer]
          exact (hgood.delivered_iff (Nat.lt_of_le_of_lt (Nat.zero_le k) hk)).mpr hrest k hk
        · exact absurd hanswers hno
      · rw [hfailed] at hfail
        rcases hread with hgood | ⟨-, hno⟩
        · rw [hgood.failed] at hfail
          exact absurd hfail Bool.false_ne_true
        · rcases hcond.resolve_left hwait with rfl | ⟨hanswers, -⟩
          · exact absurd hstart.answers hno
          · exact absurd hanswers hno

/-- A flash with eight banks of 8 MB. -/
def bpiFlash : BpiLayout where
  addressWidth := 25
  bankWidth := 3
  bankWidth_le_eight := by decide
  bankWidth_le := by decide
  addressWidth_le := by decide
  addressRegWidth_lt := by decide

/-- A device that takes the banks and never answers a read. -/
def silentFlash : BpiEnvironment where
  polls _ := []
  firstChange _ := true
  secondChange _ := true
  bankAfterFailure _ := 0
  ready := true
  earlier := 0

/-- A read of one word that is not answered: the chunk fails, and the burst succeeds. -/
theorem bpi_silent_succeeds :
    (∃ st' s', bpiReadBurst bpiFlash silentFlash (bpiStart 0 0 0) ⟨0#8, false, false, []⟩ 0#32 (2 * 1) =
        some (STATUS_OK, st', s') ∧ s'.failed = true) ∧
      ¬BpiDelivers bpiFlash silentFlash (bpiStart 0 0 0) ⟨0#8, false, false, []⟩ 0#32 1 := by
  have hno : ¬WaitFails silentFlash 0#32 := by decide
  have hpre := handlePreBurstFlags_start silentFlash 0#32 0 0 0
  rw [if_neg hno] at hpre
  obtain ⟨st', s₁, s', hburst, hread, -, hfailed⟩ := @bpiReadBurst_succeeds bpiFlash silentFlash _ _
    ⟨0#8, false, false, []⟩ 0#32 hpre (begun_progress _ _ _ _ _ _) (begun_readData _ _ _ _ _) 1
  have hfail : s'.failed = true := by
    rw [hfailed]
    rcases hread with hgood | ⟨hfail, -⟩
    · exact absurd (hgood.answers.words 0 Nat.one_pos) id
    · exact hfail
  refine ⟨⟨st', s', hburst, hfail⟩, ?_⟩
  rintro ⟨ret, st'', s'', hburst', -, hchunks⟩
  rw [hburst] at hburst'
  obtain ⟨rfl, rfl, rfl⟩ := hburst'
  exact absurd rfl (hchunks hfail)

end MenableDriver
