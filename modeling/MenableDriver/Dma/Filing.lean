import MenableDriver.Dma.Registry

/-!
# Where the buffers of a head lie

`Filed` says that every registered buffer of the active head lies in the list its
`listname` names and in no other, `Counted` that the counters are the lengths. What can
go wrong with either depends on the requests, so both are relative to a `Trust`: the
lists over whose buffers a stopped channel may have put a mark, the counters that are
right, and whether the hot list has what the engine has.
-/

namespace MenableDriver

set_option autoImplicit false

open Transition Shelves

/-- `marks n`: a buffer in the list `n` may carry the mark `READY_LIST` while its channel is
stopping or stopped. `counts n`: the counter of the list `n` is right. `flight`: what the
engine has is in the hot list. -/
structure Trust where
  marks : ListName → Prop
  counts : ListName → Prop
  flight : Prop

/-- The list of a buffer that is in one. -/
def ListName.place (n : ListName) : Option ListName := if n = .noList then none else some n

/-- What the engine was given and has not given back, since it was last stopped. -/
def inFlight : List HwEvent → List BufRef
  | [] => []
  | .queued _ b :: log => inFlight log ++ [b]
  | .returned b :: log => (inFlight log).erase b
  | .bound .. :: log => inFlight log
  | .stopdma :: _ | .abortdma :: _ => []

def Dmachan.Idle (ch : Dmachan) : Prop := ch.state = .stopped ∨ ch.state = .stopping

structure Filed (tr : Trust) (ch : Dmachan) (name : BufRef → ListName) (regs : List BufRef) (h : HeadRef) :
    Prop where
  clear : ch.list .noList = []
  owned : ∀ n b, b ∈ ch.list n → b ∈ regs ∨ b = .dummy h ∧ n = .hot
  placed : ∀ b ∈ regs, ∃ n : ListName, At ch.list b n.place ∧
    (name b = n ∨ ch.Idle ∧ tr.marks n ∧ name b = .ready)

/-- What the counter of the list `n` counts: its members, or the buffers that are in none. -/
def held (ch : Dmachan) (regs : List BufRef) (n : ListName) : Nat :=
  if n = .noList then regs.countP fun b => !ch.linked b else (ch.list n).length

structure Counted (tr : Trust) (ch : Dmachan) (regs : List BufRef) (h : HeadRef) : Prop where
  count : ∀ n, tr.counts n → ch.count n = held ch regs n
  dummy : tr.counts .hot → (ch.list .hot).count (.dummy h) ≤ 1

/-- The buffers of one head. -/
structure Stock (regs : List BufRef) (h : HeadRef) : Prop where
  nodup : regs.Nodup
  few : regs.length < kcallocLimit
  dummy : .dummy h ∉ regs

theorem Stock.perm {regs regs' : List BufRef} {h : HeadRef} (hst : Stock regs h) (hp : regs.Perm regs') :
    Stock regs' h :=
  ⟨hp.nodup_iff.mp hst.nodup, hp.length_eq ▸ hst.few, fun hm => hst.dummy (hp.mem_iff.mpr hm)⟩

section Places
variable {n n' : ListName}

@[simp] theorem place_noList : ListName.place .noList = none := rfl

theorem place_eq_some : n.place = some n' ↔ n = n' ∧ n' ≠ .noList := by
  unfold ListName.place
  split_ifs with h
  · simp [h]
    exact fun he => he.symm
  · constructor
    · rintro he
      cases he
      exact ⟨rfl, h⟩
    · rintro ⟨rfl, _⟩
      rfl

theorem place_of_ne (h : n ≠ .noList) : n.place = some n := if_neg h

theorem place_eq_none : n.place = none ↔ n = .noList := by
  unfold ListName.place
  split_ifs with h <;> simp [h]

theorem place_inj (h : n.place = n'.place) : n = n' := by
  cases n <;> cases n' <;> first | rfl | cases h

theorem linked_at {ch : Dmachan} {b : BufRef} (h : At ch.list b n.place) :
    ch.linked b = decide (n ≠ .noList) := by
  rw [Bool.eq_iff_iff, Dmachan.linked_iff, h.on_iff, Ne, place_eq_none, decide_eq_true_iff]

end Places

variable {tr : Trust} {ch ch' : Dmachan} {name name' : BufRef → ListName} {regs regs' : List BufRef}
  {h : HeadRef} {b : BufRef} {n n₀ n₁ : ListName}

namespace Filed

/-- The name tells the list, but for a mark. -/
theorem at_of_name (hf : Filed tr ch name regs h) (hb : b ∈ regs) (hn : name b = n) (hr : n ≠ .ready) :
    At ch.list b n.place := by
  obtain ⟨n', hat, hname | ⟨_, _, hname⟩⟩ := hf.placed b hb
  · rw [← hn, hname]
    exact hat
  · exact absurd (hn.symm.trans hname) hr

/-- A buffer in a list is registered and lies nowhere else; the dummy is only ever hot. -/
theorem at_of_mem (hf : Filed tr ch name regs h) (hm : b ∈ ch.list n) (hb : b ≠ .dummy h) :
    b ∈ regs ∧ At ch.list b n.place := by
  have hr : b ∈ regs := (hf.owned n b hm).resolve_right fun hd => hb hd.1
  obtain ⟨n', hat, _⟩ := hf.placed b hr
  obtain ⟨rfl, _⟩ := place_eq_some.mp (hat.mem_iff.mp hm)
  exact ⟨hr, hat⟩

theorem congr (hf : Filed tr ch name regs h) (hl : ch'.list = ch.list) (hi : ch.Idle → ch'.Idle)
    (hname : ∀ b ∈ regs, name' b = name b) : Filed tr ch' name' regs h where
  clear := hl ▸ hf.clear
  owned := hl ▸ hf.owned
  placed b hb := by
    obtain ⟨n, hat, hn⟩ := hf.placed b hb
    rw [hl, hname b hb]
    exact ⟨n, hat, hn.imp_right (And.imp_left hi)⟩

theorem perm (hf : Filed tr ch name regs h) (hp : regs.Perm regs') : Filed tr ch name regs' h where
  clear := hf.clear
  owned n b hb := (hf.owned n b hb).imp_left hp.mem_iff.mp
  placed b hb := hf.placed b (hp.mem_iff.mpr hb)

/-- The buffer goes to another list and gets its name. -/
theorem shift (hf : Filed tr ch name regs h) (hb : b ∈ regs)
    (hs : Shelves.Shift ch.list ch'.list b n₀.place n.place) (hi : ch.Idle → ch'.Idle) (hn : name' b = n)
    (hname : ∀ b' ∈ regs, b' ≠ b → name' b' = name b') : Filed tr ch' name' regs h where
  clear := by
    refine List.eq_nil_iff_forall_not_mem.mpr fun b' hb' => ?_
    by_cases he : b' = b
    · subst he
      exact (place_eq_some.mp (hs.after.mem_iff.mp hb')).2 rfl
    · rw [hs.mem_iff he, hf.clear] at hb'
      cases hb'
  owned k b' hb' := by
    by_cases he : b' = b
    · subst he
      exact .inl hb
    · exact hf.owned k b' ((hs.mem_iff he).mp hb')
  placed b' hb' := by
    by_cases he : b' = b
    · subst he
      exact ⟨n, hs.after, .inl hn⟩
    · obtain ⟨k, hat, hk⟩ := hf.placed b' hb'
      rw [hname b' hb' he]
      exact ⟨k, (hs.at_iff he).mpr hat, hk.imp_right (And.imp_left hi)⟩

/-- Only what is hot changes, and only by the dummy. -/
theorem dummy (hf : Filed tr ch name regs h) (hd : .dummy h ∉ regs) (hi : ch.Idle → ch'.Idle)
    (hothers : ∀ b, b ≠ .dummy h → ∀ k, (ch'.list k).count b = (ch.list k).count b)
    (hdummy : ∀ k, .dummy h ∈ ch'.list k → k = .hot) (hname : ∀ b ∈ regs, name' b = name b) :
    Filed tr ch' name' regs h where
  clear := by
    refine List.eq_nil_iff_forall_not_mem.mpr fun b' hb' => ?_
    by_cases he : b' = .dummy h
    · subst he
      cases hdummy _ hb'
    · rw [← List.count_pos_iff, hothers b' he, hf.clear] at hb'
      cases hb'
  owned k b' hb' := by
    by_cases he : b' = .dummy h
    · subst he
      exact .inr ⟨rfl, hdummy k hb'⟩
    · rw [← List.count_pos_iff, hothers b' he, List.count_pos_iff] at hb'
      exact hf.owned k b' hb'
  placed b' hb' := by
    have he : b' ≠ .dummy h := fun he => hd (he ▸ hb')
    obtain ⟨k, hat, hk⟩ := hf.placed b' hb'
    rw [hname b' hb']
    exact ⟨k, fun i => (hothers b' he i).trans (hat i), hk.imp_right (And.imp_left hi)⟩

/-- A mark over a buffer of a stopped channel. -/
theorem mark (hf : Filed tr ch name regs h) (hi : ch.Idle) (hm : ∀ n, At ch.list b n.place → name b = n →
      n = .ready ∨ tr.marks n) (hn : name' b = .ready) (hname : ∀ b' ∈ regs, b' ≠ b → name' b' = name b') :
    Filed tr ch name' regs h where
  clear := hf.clear
  owned := hf.owned
  placed b' hb' := by
    obtain ⟨n, hat, hk⟩ := hf.placed b' hb'
    by_cases he : b' = b
    · subst he
      refine ⟨n, hat, ?_⟩
      rcases hk with hk | hk
      · rcases hm n hat hk with rfl | hmn
        · exact .inl hn
        · exact .inr ⟨hi, hmn, hn⟩
      · exact .inr ⟨hi, hk.2.1, hn⟩
    · rw [hname b' hb' he]
      exact ⟨n, hat, hk⟩

/-- A new buffer is free. -/
theorem insert (hf : Filed tr ch name regs h) (hb : b ∉ regs) (hd : b ≠ .dummy h) (hn₁ : n ≠ .noList)
    (hl : ch'.list = putLast ch.list b n) (hi : ch.Idle → ch'.Idle) (hn : name' b = n)
    (hname : ∀ b' ∈ regs, name' b' = name b') : Filed tr ch' name' (b :: regs) h := by
  have hon : ¬ On ch.list b := by
    rintro ⟨k, hk⟩
    rcases hf.owned k b hk with h | h
    · exact hb h
    · exact hd h.1
  have hs : Shelves.Shift ch.list ch'.list b none (some n) := hl ▸ .putLast (.of_not_on hon) n
  refine ⟨?_, fun k b' hb' => ?_, fun b' hb' => ?_⟩
  · rw [hl, putLast_ne (Ne.symm hn₁)]
    exact hf.clear
  · by_cases he : b' = b
    · exact .inl (by simp [he])
    · rcases hf.owned k b' ((hs.mem_iff he).mp hb') with h | h
      · exact .inl (List.mem_cons_of_mem b h)
      · exact .inr h
  · by_cases he : b' = b
    · subst he
      exact ⟨n, by rw [place_of_ne hn₁]; exact hs.after, .inl hn⟩
    · have hr := (List.mem_cons.mp hb').resolve_left he
      obtain ⟨k, hat, hk⟩ := hf.placed b' hr
      rw [hname b' hr]
      exact ⟨k, (hs.at_iff he).mpr hat, hk.imp_right (And.imp_left hi)⟩

/-- A buffer that is removed is in no list afterwards. -/
theorem remove (hf : Filed tr ch name (b :: regs) h) (hb : b ∉ regs) {p : Option ListName}
    (hs : Shelves.Shift ch.list ch'.list b p none) (hi : ch.Idle → ch'.Idle)
    (hname : ∀ b' ∈ regs, name' b' = name b') : Filed tr ch' name' regs h where
  clear := by
    refine List.eq_nil_iff_forall_not_mem.mpr fun b' hb' => ?_
    by_cases he : b' = b
    · subst he
      exact hs.after.not_mem _ hb'
    · rw [hs.mem_iff he, hf.clear] at hb'
      cases hb'
  owned k b' hb' := by
    have he : b' ≠ b := by
      rintro rfl
      exact hs.after.not_mem k hb'
    rcases hf.owned k b' ((hs.mem_iff he).mp hb') with h | h
    · exact .inl ((List.mem_cons.mp h).resolve_left he)
    · exact .inr h
  placed b' hb' := by
    have he : b' ≠ b := by
      rintro rfl
      exact hb hb'
    obtain ⟨k, hat, hk⟩ := hf.placed b' (List.mem_cons_of_mem b hb')
    rw [hname b' hb']
    exact ⟨k, (hs.at_iff he).mpr hat, hk.imp_right (And.imp_left hi)⟩

end Filed

section Held

theorem linked_congr (hl : ∀ k, b ∈ ch'.list k ↔ b ∈ ch.list k) : ch'.linked b = ch.linked b := by
  rw [Bool.eq_iff_iff, Dmachan.linked_iff, Dmachan.linked_iff]
  exact exists_congr hl

theorem held_noList : held ch regs .noList = regs.countP fun b => !ch.linked b := if_pos rfl

theorem held_list (hn : n ≠ .noList) : held ch regs n = (ch.list n).length := if_neg hn

/-- There are never more than the registered buffers and the dummy. -/
theorem held_le (hf : Filed tr ch name regs h) (hst : Stock regs h)
    (hd : n = .hot → (ch.list .hot).count (.dummy h) ≤ 1) : held ch regs n ≤ regs.length + 1 := by
  by_cases hn : n = .noList
  · subst hn
    rw [held_noList]
    exact Nat.le_succ_of_le List.countP_le_length
  · rw [held_list hn]
    have hcount : ∀ b, (ch.list n).count b ≤ 1 := by
      intro b
      by_cases hb : b ∈ ch.list n
      · by_cases he : b = .dummy h
        · subst he
          rcases hf.owned n _ hb with hr | ⟨_, rfl⟩
          · exact absurd hr hst.dummy
          · exact hd rfl
        · rw [(hf.at_of_mem hb he).2 n]
          split_ifs <;> omega
      · rw [List.count_eq_zero.mpr hb]
        omega
    have hsub : ch.list n ⊆ .dummy h :: regs := by
      intro b hb
      rcases hf.owned n b hb with hr | ⟨rfl, _⟩
      · exact List.mem_cons_of_mem _ hr
      · exact List.mem_cons_self
    exact (List.subperm_of_subset (List.nodup_iff_count_le_one.mpr hcount) hsub).length_le

/-- A buffer that goes from one place to another changes two counts. -/
theorem held_shift (hst : Stock regs h) (hb : b ∈ regs)
    (hs : Shelves.Shift ch.list ch'.list b n₀.place n.place) (k : ListName) :
    held ch' regs k + (if k = n₀ then 1 else 0) = held ch regs k + (if k = n then 1 else 0) := by
  by_cases hne : n = n₀
  · subst hne
    have hcount : ∀ i b', (ch'.list i).count b' = (ch.list i).count b' := by
      intro i b'
      by_cases he : b' = b
      · subst he
        rw [hs.before i, hs.after i]
      · exact hs.others b' he i
    have hperm : ∀ i, (ch'.list i).Perm (ch.list i) := fun i => List.perm_iff_count.mpr (hcount i)
    have hlinked : ∀ b', ch'.linked b' = ch.linked b' := fun b' => linked_congr fun i => (hperm i).mem_iff
    simp only [held, hlinked, (hperm k).length_eq]
  have hlinked : ∀ b', b' ≠ b → ch'.linked b' = ch.linked b' := fun b' he =>
    linked_congr fun k => hs.mem_iff he
  have hbefore := linked_at hs.before
  have hafter := linked_at hs.after
  by_cases hk : k = .noList
  · subst hk
    rw [held_noList, held_noList]
    by_cases hn : n = .noList
    · subst hn
      have hflip := countP_flip (f := fun b => !ch.linked b) (g := fun b => !ch'.linked b) hst.nodup hb
        (by simp [hbefore, Ne.symm hne]) (by simp [hafter]) (fun b' _ he => by rw [hlinked b' he])
      rw [hflip, if_neg hne, if_pos rfl]
    · by_cases hn₀ : n₀ = .noList
      · subst hn₀
        have hflip := countP_flip (f := fun b => !ch'.linked b) (g := fun b => !ch.linked b) hst.nodup hb
          (by simp [hafter, hn]) (by simp [hbefore]) (fun b' _ he => by rw [hlinked b' he])
        rw [hflip, if_neg (Ne.symm hn), if_pos rfl]
      · rw [if_neg (Ne.symm hn), if_neg (Ne.symm hn₀)]
        refine congrArg (· + 0) (List.countP_congr fun b' _ => ?_)
        by_cases he : b' = b
        · subst he
          simp [hbefore, hafter, hn, hn₀]
        · rw [hlinked b' he]
  · rw [held_list hk, held_list hk]
    have hplace : ∀ n' : ListName, n'.place = some k ↔ k = n' := fun n' => by
      rw [place_eq_some]
      exact ⟨fun h => h.1.symm, fun h => ⟨h.symm, hk⟩⟩
    by_cases hn : k = n
    · have hperm := hs.perm_to (fun h => hne (hn.symm.trans ((hplace n₀).mp h))) ((hplace n).mpr hn)
      rw [if_pos hn, if_neg fun h => hne (hn.symm.trans h)]
      simpa using hperm.length_eq.symm
    · by_cases hn₀ : k = n₀
      · have hperm := hs.perm_from ((hplace n₀).mpr hn₀) fun h => hn ((hplace n).mp h)
        rw [if_pos hn₀, if_neg hn]
        simpa using hperm.length_eq
      · have hperm := hs.perm_other (fun h => hn₀ ((hplace n₀).mp h)) fun h => hn ((hplace n).mp h)
        rw [if_neg hn₀, if_neg hn]
        simpa using hperm.length_eq

/-- A buffer that comes new is counted where it is put. -/
theorem held_cons (hb : b ∉ regs) (hs : Shelves.Shift ch.list ch'.list b none n.place) (k : ListName) :
    held ch' (b :: regs) k = held ch regs k + (if k = n then 1 else 0) := by
  by_cases hk : k = .noList
  · subst hk
    have hrest : (regs.countP fun b => !ch'.linked b) = regs.countP fun b => !ch.linked b :=
      List.countP_congr fun b' hb' => by
        have he : b' ≠ b := fun he => hb (he ▸ hb')
        rw [linked_congr fun i => hs.mem_iff he]
    rw [held_noList, held_noList, List.countP_cons, hrest, linked_at hs.after]
    by_cases hn : n = .noList
    · simp [hn]
    · simp [hn, Ne.symm hn]
  · rw [held_list hk, held_list hk]
    by_cases hn : k = n
    · have hperm := hs.perm_to (i := k) (by simp) (by rw [← hn]; exact place_of_ne hk)
      rw [if_pos hn]
      simpa using hperm.length_eq.symm
    · have hperm := hs.perm_other (i := k) (by simp) fun h => hn (place_eq_some.mp h).1.symm
      rw [if_neg hn]
      simpa using hperm.length_eq

end Held

namespace Counted

theorem congr (hc : Counted tr ch regs h) (hl : ch'.list = ch.list) (hcount : ch'.count = ch.count) :
    Counted tr ch' regs h where
  count n hn := by
    have hlinked : ∀ b, ch'.linked b = ch.linked b := fun b => linked_congr fun k => by rw [hl]
    rw [hcount, hc.count n hn]
    simp only [held, hlinked, hl]
  dummy hh := hl ▸ hc.dummy hh

theorem perm (hc : Counted tr ch regs h) (hp : regs.Perm regs') : Counted tr ch regs' h where
  count n hn := by
    rw [hc.count n hn, held, held, hp.countP_eq]
  dummy := hc.dummy

/-- The counters follow a buffer that goes to another list. A counter that is not trusted can
do what it likes. -/
theorem shift (hc : Counted tr ch regs h) (hf : Filed tr ch name regs h) (hf' : Filed tr ch' name' regs h)
    (hst : Stock regs h) (hb : b ∈ regs)
    (hs : Shelves.Shift ch.list ch'.list b n₀.place n.place) (hne : tr.counts n → n ≠ n₀)
    (hto : tr.counts n → ch'.count n = Counter.inc (ch.count n))
    (hfrom : tr.counts n₀ → ch'.count n₀ = Counter.dec (ch.count n₀))
    (hothers : ∀ k, tr.counts k → k ≠ n → k ≠ n₀ → ch'.count k = ch.count k) : Counted tr ch' regs h := by
  have hbd : .dummy h ≠ b := fun he => hst.dummy (he ▸ hb)
  have hdummy : tr.counts .hot → (ch'.list .hot).count (.dummy h) ≤ 1 := fun hh => by
    rw [hs.others _ hbd]
    exact hc.dummy hh
  refine ⟨fun k hk => ?_, hdummy⟩
  have hheld := held_shift hst hb hs k
  have hle : held ch regs k ≤ regs.length + 1 := held_le hf hst fun he => hc.dummy (he ▸ hk)
  have hle' : held ch' regs k ≤ regs.length + 1 := held_le hf' hst fun he => hdummy (he ▸ hk)
  have hwrap : regs.length + 1 < Counter.wrap := Nat.lt_of_le_of_lt (Nat.succ_le_of_lt hst.few) (by decide)
  have hold := hc.count k hk
  by_cases hn : k = n
  · subst hn
    have hnn := hne hk
    rw [if_neg hnn, if_pos rfl] at hheld
    rw [hto hk, hold, Counter.inc_eq (by omega)]
    omega
  · by_cases hn₀ : k = n₀
    · subst hn₀
      rw [if_pos rfl, if_neg hn] at hheld
      have hsucc : held ch regs k = held ch' regs k + 1 := hheld.symm
      rw [hfrom hk, hold, hsucc, Counter.dec_succ (by omega)]
    · rw [if_neg hn₀, if_neg hn] at hheld
      rw [hothers k hk hn hn₀, hold]
      omega

theorem insert (hc : Counted tr ch regs h) (hf' : Filed tr ch' name' (b :: regs) h)
    (hst : Stock (b :: regs) h)
    (hs : Shelves.Shift ch.list ch'.list b none n.place)
    (hto : tr.counts n → ch'.count n = Counter.inc (ch.count n))
    (hothers : ∀ k, tr.counts k → k ≠ n → ch'.count k = ch.count k) : Counted tr ch' (b :: regs) h := by
  have hbd : .dummy h ≠ b := fun he => hst.dummy (he ▸ List.mem_cons_self)
  have hdummy : tr.counts .hot → (ch'.list .hot).count (.dummy h) ≤ 1 := fun hh => by
    rw [hs.others _ hbd]
    exact hc.dummy hh
  refine ⟨fun k hk => ?_, hdummy⟩
  have hheld := held_cons (List.nodup_cons.mp hst.nodup).1 hs k
  have hle' : held ch' (b :: regs) k ≤ (b :: regs).length + 1 := held_le hf' hst fun he => hdummy (he ▸ hk)
  have hwrap : (b :: regs).length + 1 < Counter.wrap :=
    Nat.lt_of_le_of_lt (Nat.succ_le_of_lt hst.few) (by decide)
  have hold := hc.count k hk
  by_cases hn : k = n
  · subst hn
    rw [if_pos rfl] at hheld
    rw [hto hk, hold, Counter.inc_eq (by omega), hheld]
  · rw [if_neg hn] at hheld
    rw [hothers k hk hn, hold, hheld, Nat.add_zero]

theorem remove (hc : Counted tr ch (b :: regs) h) (hf : Filed tr ch name (b :: regs) h)
    (hst : Stock (b :: regs) h) (hs : Shelves.Shift ch.list ch'.list b n₀.place none)
    (hfrom : tr.counts n₀ → ch'.count n₀ = Counter.dec (ch.count n₀))
    (hothers : ∀ k, tr.counts k → k ≠ n₀ → ch'.count k = ch.count k) : Counted tr ch' regs h := by
  have hbd : .dummy h ≠ b := fun he => hst.dummy (he ▸ List.mem_cons_self)
  refine ⟨fun k hk => ?_, fun hh => ?_⟩
  · have hheld := held_cons (List.nodup_cons.mp hst.nodup).1 hs.symm k
    have hle : held ch (b :: regs) k ≤ (b :: regs).length + 1 := held_le hf hst fun he => hc.dummy (he ▸ hk)
    have hwrap : (b :: regs).length + 1 < Counter.wrap :=
      Nat.lt_of_le_of_lt (Nat.succ_le_of_lt hst.few) (by decide)
    have hold := hc.count k hk
    by_cases hn₀ : k = n₀
    · subst hn₀
      rw [if_pos rfl] at hheld
      rw [hfrom hk, hold, hheld, Counter.dec_succ (by omega)]
    · rw [if_neg hn₀] at hheld
      rw [hothers k hk hn₀, hold, hheld, Nat.add_zero]
  · rw [hs.others _ hbd]
    exact hc.dummy hh

/-- Only the hot list changes, by the dummy. -/
theorem dummyOnly (hc : Counted tr ch regs h) (hlinked : ∀ b ∈ regs, ch'.linked b = ch.linked b)
    (hl : ∀ k, k ≠ .hot → (ch'.list k).length = (ch.list k).length)
    (hcount : ∀ k, k ≠ .hot → ch'.count k = ch.count k)
    (hhot : tr.counts .hot → ch'.count .hot = (ch'.list .hot).length ∧ (ch'.list .hot).count (.dummy h) ≤ 1) :
    Counted tr ch' regs h where
  count k hk := by
    by_cases hn : k = .hot
    · subst hn
      exact (hhot hk).1
    · rw [hcount k hn, hc.count k hk]
      by_cases hno : k = .noList
      · subst hno
        exact List.countP_congr fun b hb => by rw [hlinked b hb]
      · rw [held_list hno, held_list hno, hl k hn]
  dummy hk := (hhot hk).2

theorem nil (hl : ∀ n, ch.list n = []) (hcount : ∀ n, ch.count n = 0) : Counted tr ch [] h where
  count n _ := by
    unfold held
    split_ifs
    · simp [hcount]
    · simp [hcount, hl]
  dummy _ := by simp [hl]

end Counted

theorem Filed.nil (hl : ∀ n, ch.list n = []) : Filed tr ch name [] h where
  clear := hl .noList
  owned n b hb := by
    rw [hl] at hb
    cases hb
  placed b hb := by cases hb

end MenableDriver
