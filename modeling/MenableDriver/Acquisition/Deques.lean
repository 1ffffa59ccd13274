import Mathlib.Data.Fintype.Card
import MenableDriver.Acquisition.ImageBufferDeque
import MenableDriver.Transition.Run

/-!
# The deques are lists

What the deques are for: every deque is a list of buffers, and a buffer is in one of them at
most. The links represent the lists, and every call does to the lists what it says.
-/

namespace MenableDriver

set_option autoImplicit false

open Intrusive Transition

variable {D B : Type}

/-- The buffers of every deque. -/
abbrev Deques (D B : Type) := D → List B

namespace Deques

variable [DecidableEq D] [DecidableEq B] [Fintype D]

def pushBack (a : Deques D B) (self : D) : Option B → Deques D B × DequeStatus
  | none => (a, .invalidOperation)
  | some b =>
    if ∃ d, b ∈ a d then (a, .invalidOperation) else (Function.update a self (a self ++ [b]), .ok)

def popFront (a : Deques D B) (self : D) : Deques D B × Option B :=
  (Function.update a self (a self).tail, (a self).head?)

def popAll (a : Deques D B) (self target : D) : Deques D B :=
  Function.update (Function.update a target (a self)) self []

def moveItemsFrom (a : Deques D B) (self source : D) : Deques D B :=
  Function.update (Function.update a self (a self ++ a source)) source []

def remove (a : Deques D B) (self : D) (buffer : Option B) : Deques D B × DequeStatus :=
  if a self = [] then (a, .invalidOperation)
  else
    match buffer with
    | none => (a, .invalidArgument)
    | some b => if b ∈ a self then (Function.update a self ((a self).erase b), .ok) else (a, .error)

def clear (a : Deques D B) (self : D) : Deques D B := Function.update a self []

def call (a : Deques D B) : DequeOp D B → Deques D B × DequeResult D B
  | .pushBack self buffer => ((pushBack a self buffer).1, .status (pushBack a self buffer).2)
  | .popFront self => ((popFront a self).1, .buffer ((popFront a self).2.map .item))
  | .popAll self target => (popAll a self target, .void)
  | .moveItemsFrom self source _ => (moveItemsFrom a self source, .void)
  | .remove self buffer => ((remove a self buffer).1, .status (remove a self buffer).2)
  | .clear self => (clear a self, .void)

end Deques

/-- The links of a deque: its head, and behind it its buffers. -/
def nodes (d : D) (bs : List B) : List (ImageBuffer D B) := .head d :: bs.map .item

/-- The links represent the lists, and a buffer outside of all deques has no links. -/
structure Represents (s : DequeLinks D B) (a : Deques D B) : Prop where
  chain : ∀ d, Chain s (nodes d (a d))
  start : ∀ d, s.previous (.head d) = none
  nodup : ∀ d, (a d).Nodup
  apart : ∀ d e b, b ∈ a d → b ∈ a e → d = e
  free : ∀ b, (∀ d, b ∉ a d) → s.next (.item b) = none ∧ s.previous (.item b) = none

variable {s : DequeLinks D B} {a : Deques D B} {d e : D} {b : B} {us vs : List B}

theorem initialized_represents : Represents (ImageBufferDeque.initialized : DequeLinks D B) fun _ => [] where
  chain := fun _ => rfl
  start := fun _ => rfl
  nodup := fun _ => List.nodup_nil
  apart := fun _ _ _ h => absurd h List.not_mem_nil
  free := fun _ _ => ⟨rfl, rfl⟩

theorem nodes_nodup (d : D) {bs : List B} (h : bs.Nodup) : (nodes d bs).Nodup := by
  refine List.nodup_cons.mpr ⟨by simp, ?_⟩
  exact h.map fun x y hxy => by simpa using hxy

theorem mem_nodes_item : (.item b : ImageBuffer D B) ∈ nodes d us ↔ b ∈ us := by
  simp [nodes]

theorem mem_nodes_head : (.head e : ImageBuffer D B) ∈ nodes d us ↔ e = d := by
  simp [nodes]

/-- The last node before the buffers that follow `us`. -/
def lastNode (d : D) (us : List B) : ImageBuffer D B := (us.getLast?.map .item).getD (.head d)

theorem nodes_eq_concat (d : D) (us : List B) : ∃ pre, nodes d us = pre ++ [lastNode d us] := by
  rcases List.eq_nil_or_concat us with rfl | ⟨ws, w, rfl⟩
  · exact ⟨[], rfl⟩
  · exact ⟨nodes d ws, by simp [nodes, lastNode]⟩

theorem lastNode_mem (d : D) (us : List B) : lastNode d us ∈ nodes d us := by
  obtain ⟨pre, hpre⟩ := nodes_eq_concat d us
  simp [hpre]

theorem getLast_nodes (d : D) (us : List B) : (nodes d us).getLast (by simp [nodes]) = lastNode d us := by
  obtain ⟨pre, hpre⟩ := nodes_eq_concat d us
  simp [hpre]

theorem nodes_append (d : D) (us vs : List B) : nodes d (us ++ vs) = nodes d us ++ vs.map .item := by
  simp [nodes]

namespace Represents

theorem next_head (h : Represents s a) (d : D) : s.next (.head d) = (a d).head?.map .item := by
  have hn := (h.chain d).next_eq
  rwa [List.head?_map] at hn

theorem isEmpty_iff (h : Represents s a) (d : D) : ImageBufferDeque.isEmpty s d = true ↔ a d = [] := by
  rw [ImageBufferDeque.isEmpty, h.next_head d]
  cases a d <;> simp

/-- A buffer of a deque has the node before it as its link backward. -/
theorem previous_item (h : Represents s a) (ha : a d = us ++ b :: vs) :
    s.previous (.item b) = some (lastNode d us) := by
  obtain ⟨pre, hpre⟩ := nodes_eq_concat d us
  have hc := h.chain d
  rw [ha, nodes_append, hpre, List.append_assoc] at hc
  exact hc.previous_eq

theorem next_item (h : Represents s a) (ha : a d = us ++ b :: vs) :
    s.next (.item b) = (vs.map .item).head? := by
  have hc := h.chain d
  rw [ha, nodes_append] at hc
  exact hc.suffix.next_eq

theorem linked_iff (h : Represents s a) (b : B) :
    ImageBufferDeque.isItemAlreadyLinked s (.item b) = true ↔ ∃ d, b ∈ a d := by
  constructor
  · intro hl
    by_contra hb
    obtain ⟨hn, hp⟩ := h.free b fun d hd => hb ⟨d, hd⟩
    simp [ImageBufferDeque.isItemAlreadyLinked, hn, hp] at hl
  · rintro ⟨d, hd⟩
    obtain ⟨us, vs, ha⟩ := List.append_of_mem hd
    simp [ImageBufferDeque.isItemAlreadyLinked, h.previous_item ha]

section Walks
variable [Fintype B]

theorem length_lt (h : Represents s a) (d : D) : (a d).length < ImageBufferDeque.walkBound B :=
  Nat.lt_succ_of_le (h.nodup d).length_le_card

theorem getLastEntry_eq (h : Represents s a) (d : D) :
    ImageBufferDeque.getLastEntry s d = some (lastNode d (a d)) := by
  rw [← getLast_nodes]
  exact (h.chain d).lastFrom_eq (by simpa using h.length_lt d)

theorem size_eq (h : Represents s a) (d : D) : ImageBufferDeque.size s d = some (a d).length := by
  have hc := (h.chain d).tail.countFrom_eq (by simpa using (h.length_lt d).le)
  rw [ImageBufferDeque.size, h.next_head, ← List.head?_map, hc, List.length_map]

end Walks

variable [DecidableEq D] [DecidableEq B] {ws : List B}

/-- Behind `us` the buffers `vs` follow now. -/
theorem relink (h : Represents s a) (ha : a d = us ++ ws) (hnodup : (us ++ vs).Nodup)
    (hvs : Chain s (vs.map ImageBuffer.item)) :
    Chain (s.setFollower (lastNode d us) (vs.map ImageBuffer.item).head?) (nodes d (us ++ vs)) := by
  obtain ⟨pre, hpre⟩ := nodes_eq_concat d us
  have hnodes (zs : List B) : nodes d (us ++ zs) = pre ++ lastNode d us :: zs.map ImageBuffer.item := by
    rw [nodes_append, hpre, List.append_assoc]
    rfl
  have hc := h.chain d
  rw [ha, hnodes] at hc
  have hn := nodes_nodup d hnodup
  rw [hnodes] at hn ⊢
  exact hc.splice hvs hn

/-- The other deques keep their links. -/
theorem relink_other (h : Represents s a) (ha : a d = us ++ ws) (hde : d ≠ e)
    (hvs : ∀ b ∈ vs, b ∉ a e) :
    Chain (s.setFollower (lastNode d us) (vs.map ImageBuffer.item).head?) (nodes e (a e)) := by
  refine (h.chain e).setFollower ?_ ?_
  · intro hmem
    have hlast := lastNode_mem d us
    cases hl : lastNode d us with
    | head d' =>
      rw [hl] at hmem hlast
      exact hde ((mem_nodes_head.mp hlast).symm.trans (mem_nodes_head.mp hmem))
    | item b =>
      rw [hl] at hmem hlast
      have hbd : b ∈ a d := ha ▸ List.mem_append_left ws (mem_nodes_item.mp hlast)
      exact hde (h.apart d e b hbd (mem_nodes_item.mp hmem))
  · intro f hf hmem
    obtain ⟨b, hb, rfl⟩ := List.mem_map.mp (List.mem_of_mem_head? hf)
    exact hvs b hb (mem_nodes_item.mp hmem)

/-- A buffer that is neither the last before `vs` nor the first of them keeps its links. -/
theorem relink_free (hus : b ∉ us) (hvs : b ∉ vs) :
    (s.setFollower (lastNode d us) (vs.map ImageBuffer.item).head?).next (.item b) = s.next (.item b) ∧
      (s.setFollower (lastNode d us) (vs.map ImageBuffer.item).head?).previous (.item b) =
        s.previous (.item b) := by
  constructor
  · rw [Links.setFollower_next, Function.update_of_ne]
    intro he
    have hmem := lastNode_mem d us
    rw [← he, mem_nodes_item] at hmem
    exact hus hmem
  · rw [Links.setFollower_previous, if_neg]
    intro he
    obtain ⟨c, hc, hcb⟩ := List.mem_map.mp (List.mem_of_mem_head? (by rw [he]; rfl))
    exact hvs (ImageBuffer.item.inj hcb ▸ hc)

theorem relink_start (h : Represents s a) (us vs : List B) (e : D) :
    (s.setFollower (lastNode d us) (vs.map ImageBuffer.item).head?).previous (.head e) = none := by
  rw [Links.setFollower_previous, if_neg, h.start]
  intro he
  obtain ⟨c, -, hcb⟩ := List.mem_map.mp (List.mem_of_mem_head? (by rw [he]; rfl))
  cases hcb

omit [DecidableEq B] in
/-- One deque gets other buffers, which no other deque has. -/
theorem update_apart (h : Represents s a) {zs : List B} (hzs : ∀ b ∈ zs, ∀ e, b ∈ a e → e = d) {e f : D}
    (he : b ∈ Function.update a d zs e) (hf : b ∈ Function.update a d zs f) : e = f := by
  by_cases hed : e = d
  · by_cases hfd : f = d
    · exact hed.trans hfd.symm
    · rw [hed, Function.update_self] at he
      rw [Function.update_of_ne hfd] at hf
      exact absurd (hzs b he f hf) hfd
  · rw [Function.update_of_ne hed] at he
    by_cases hfd : f = d
    · rw [hfd, Function.update_self] at hf
      exact absurd (hzs b hf e he) hed
    · rw [Function.update_of_ne hfd] at hf
      exact h.apart e f b he hf

omit [DecidableEq B] in
theorem update_nodup (h : Represents s a) {zs : List B} (hzs : zs.Nodup) (e : D) :
    (Function.update a d zs e).Nodup := by
  by_cases hed : e = d
  · rw [hed, Function.update_self]
    exact hzs
  · rw [Function.update_of_ne hed]
    exact h.nodup e

/-- Between `us` and `vs` a buffer `b` is taken out. -/
theorem removed (h : Represents s a) (ha : a d = us ++ b :: vs) :
    Represents ((s.setFollower (lastNode d us) (vs.map ImageBuffer.item).head?).unlinkItem (.item b))
      (Function.update a d (us ++ vs)) := by
  have hnodup : (us ++ b :: vs).Nodup := ha ▸ h.nodup d
  have hsub : (us ++ vs).Sublist (us ++ b :: vs) := (List.sublist_cons_self b vs).append_left us
  have hb : b ∉ us ++ vs := (List.nodup_middle.mp hnodup).notMem
  have hbd : b ∈ a d := by simp [ha]
  have hmem (c : B) (hc : c ∈ us ++ vs) : c ∈ a d := ha ▸ hsub.subset hc
  have hvs : Chain s (vs.map ImageBuffer.item) := by
    have hc := h.chain d
    rw [ha, nodes_append] at hc
    exact hc.suffix.tail
  refine ⟨fun e => ?_, fun e => ?_, fun e => h.update_nodup (hsub.nodup hnodup) e, ?_, fun c hc => ?_⟩
  · by_cases hed : e = d
    · rw [hed, Function.update_self]
      exact (h.relink ha (hsub.nodup hnodup) hvs).unlinkItem (fun hm => hb (mem_nodes_item.mp hm))
    · rw [Function.update_of_ne hed]
      refine (h.relink_other ha (Ne.symm hed) ?_).unlinkItem fun hm => ?_
      · exact fun c hc hce => hed (h.apart e d c hce (hmem c (List.mem_append_right us hc)))
      · exact hed (h.apart e d b (mem_nodes_item.mp hm) hbd)
  · rw [Links.unlinkItem_previous, Function.update_of_ne (by simp)]
    exact h.relink_start _ _ e
  · exact fun e f c he hf => h.update_apart (fun c hc e hce => h.apart e d c hce (hmem c hc)) he hf
  · have hcd : c ∉ us ++ vs := by
      have := hc d
      rwa [Function.update_self] at this
    rw [List.mem_append, not_or] at hcd
    by_cases hcb : c = b
    · simp [hcb]
    · have hfree := h.free c fun e hce => by
        by_cases hed : e = d
        · rw [hed, ha] at hce
          rcases List.mem_append.mp hce with hce | hce
          · exact hcd.1 hce
          · rcases List.mem_cons.mp hce with hce | hce
            · exact hcb hce
            · exact hcd.2 hce
        · exact hc e (by rwa [Function.update_of_ne hed])
      have hne : (ImageBuffer.item c : ImageBuffer D B) ≠ .item b := fun he => hcb (ImageBuffer.item.inj he)
      rw [Links.unlinkItem_next, Links.unlinkItem_previous, Function.update_of_ne hne,
        Function.update_of_ne hne, (relink_free hcd.1 hcd.2).1, (relink_free hcd.1 hcd.2).2]
      exact hfree

theorem popFront_represents (h : Represents s a) (d : D) :
    Represents (ImageBufferDeque.popFront s d).1 (Deques.popFront a d).1 ∧
      (ImageBufferDeque.popFront s d).2 = (Deques.popFront a d).2.map .item := by
  unfold ImageBufferDeque.popFront Deques.popFront
  cases ha : a d with
  | nil =>
    have hn : s.next (.head d) = none := by rw [h.next_head, ha]; rfl
    simp only [hn, List.tail_nil, List.head?_nil, Option.map_none, and_true]
    rwa [← ha, Function.update_eq_self]
  | cons b vs =>
    have hn : s.next (.head d) = some (.item b) := by rw [h.next_head, ha]; rfl
    have hsplit : a d = [] ++ b :: vs := ha
    simp only [hn, h.next_item hsplit, List.tail_cons, List.head?_cons, Option.map_some, and_true]
    exact h.removed hsplit

/-- At the end of a deque a buffer is put that was in none. -/
theorem pushed (h : Represents s a) (d : D) (hb : ∀ e, b ∉ a e) :
    Represents (s.setFollower (lastNode d (a d)) (some (.item b))) (Function.update a d (a d ++ [b])) := by
  have ha : a d = a d ++ [] := (List.append_nil _).symm
  have hnodup : (a d ++ [b]).Nodup :=
    List.nodup_append.mpr ⟨h.nodup d, List.nodup_singleton b, fun x hx y hy hxy => by
      rw [List.mem_singleton.mp hy] at hxy
      exact hb d (hxy ▸ hx)⟩
  have hvs : Chain s ([b].map ImageBuffer.item) := (h.free b hb).1
  refine ⟨fun e => ?_, h.relink_start (a d) [b], fun e => h.update_nodup hnodup e, ?_,
    fun c hc => ?_⟩
  · by_cases hed : e = d
    · rw [hed, Function.update_self]
      exact h.relink ha hnodup hvs
    · rw [Function.update_of_ne hed]
      have hvs' : ∀ c ∈ [b], c ∉ a e := fun c hc => List.mem_singleton.mp hc ▸ hb e
      exact h.relink_other ha (Ne.symm hed) hvs'
  · refine fun e f c he hf => h.update_apart (fun c hc e hce => ?_) he hf
    rcases List.mem_append.mp hc with hc | hc
    · exact h.apart e d c hce hc
    · exact absurd hce (List.mem_singleton.mp hc ▸ hb e)
  · have hcd : c ∉ a d ++ [b] := by
      have := hc d
      rwa [Function.update_self] at this
    rw [List.mem_append, not_or] at hcd
    have hfree := relink_free (s := s) (d := d) hcd.1 hcd.2
    have hold := h.free c fun e hce => by
      by_cases hed : e = d
      · exact hcd.1 (hed ▸ hce)
      · exact hc e (by rwa [Function.update_of_ne hed])
    exact ⟨hfree.1.trans hold.1, hfree.2.trans hold.2⟩

/-- Behind the buffers of `d` those of `e` are put. -/
theorem moved (h : Represents s a) (hde : d ≠ e) :
    Represents ((s.setFollower (lastNode d (a d)) (s.next (.head e))).unlinkItem (.head e))
      (Deques.moveItemsFrom a d e) := by
  have ha : a d = a d ++ [] := (List.append_nil _).symm
  have hnodup : (a d ++ a e).Nodup :=
    List.nodup_append.mpr ⟨h.nodup d, h.nodup e, fun x hx y hy hxy => hde (h.apart d e x hx (hxy ▸ hy))⟩
  have hvs : Chain s ((a e).map ImageBuffer.item) := (h.chain e).tail
  rw [h.next_head, ← List.head?_map]
  have hself : Deques.moveItemsFrom a d e d = a d ++ a e := by
    rw [Deques.moveItemsFrom, Function.update_of_ne hde, Function.update_self]
  have hsource : Deques.moveItemsFrom a d e e = [] := Function.update_self ..
  have hother {f : D} (hfd : f ≠ d) (hfe : f ≠ e) : Deques.moveItemsFrom a d e f = a f := by
    rw [Deques.moveItemsFrom, Function.update_of_ne hfe, Function.update_of_ne hfd]
  have hmem {f : D} {c : B} (hc : c ∈ Deques.moveItemsFrom a d e f) :
      f = d ∧ c ∈ a d ++ a e ∨ f ≠ d ∧ f ≠ e ∧ c ∈ a f := by
    by_cases hfd : f = d
    · exact .inl ⟨hfd, by rwa [hfd, hself] at hc⟩
    · by_cases hfe : f = e
      · rw [hfe, hsource] at hc
        cases hc
      · exact .inr ⟨hfd, hfe, by rwa [hother hfd hfe] at hc⟩
  -- a buffer of a third deque is in neither of the two
  have hthird {f : D} {c : B} (hfd : f ≠ d) (hfe : f ≠ e) (hc : c ∈ a d ++ a e) : c ∉ a f := by
    intro hcf
    rcases List.mem_append.mp hc with hc | hc
    · exact hfd (h.apart f d c hcf hc)
    · exact hfe (h.apart f e c hcf hc)
  refine ⟨fun f => ?_, fun f => ?_, fun f => ?_, fun f g c hf hg => ?_, fun c hc => ?_⟩
  · by_cases hfd : f = d
    · rw [hfd, hself]
      exact (h.relink ha hnodup hvs).unlinkItem fun hm => hde (mem_nodes_head.mp hm).symm
    · by_cases hfe : f = e
      · rw [hfe, hsource]
        simp [nodes, Chain]
      · rw [hother hfd hfe]
        refine (h.relink_other ha (Ne.symm hfd) ?_).unlinkItem fun hm => hfe (mem_nodes_head.mp hm).symm
        exact fun c hc => hthird hfd hfe (List.mem_append_right _ hc)
  · rw [Links.unlinkItem_previous, Function.update_apply]
    split_ifs
    · rfl
    · exact h.relink_start _ _ f
  · by_cases hfd : f = d
    · rw [hfd, hself]
      exact hnodup
    · by_cases hfe : f = e
      · rw [hfe, hsource]
        exact List.nodup_nil
      · rw [hother hfd hfe]
        exact h.nodup f
  · rcases hmem hf with ⟨hfd, hcf⟩ | ⟨hfd, hfe, hcf⟩
    · rcases hmem hg with ⟨hgd, -⟩ | ⟨hgd, hge, hcg⟩
      · exact hfd.trans hgd.symm
      · exact absurd hcg (hthird hgd hge hcf)
    · rcases hmem hg with ⟨-, hcg⟩ | ⟨-, -, hcg⟩
      · exact absurd hcf (hthird hfd hfe hcg)
      · exact h.apart f g c hcf hcg
  · have hcd : c ∉ a d ++ a e := hself ▸ hc d
    rw [List.mem_append, not_or] at hcd
    have hold := h.free c fun f hcf => by
      by_cases hfd : f = d
      · exact hcd.1 (hfd ▸ hcf)
      · by_cases hfe : f = e
        · exact hcd.2 (hfe ▸ hcf)
        · exact hc f (by rwa [hother hfd hfe])
    have hfree := relink_free (s := s) (d := d) hcd.1 hcd.2
    rw [Links.unlinkItem_next, Links.unlinkItem_previous, Function.update_of_ne (by simp),
      Function.update_of_ne (by simp)]
    exact ⟨hfree.1.trans hold.1, hfree.2.trans hold.2⟩

variable [Fintype B]

omit [Fintype B] in
theorem clearLoop_represents {fuel : Nat} {d : D} (h : Represents s a) (hfuel : (a d).length ≤ fuel) :
    ∃ s', ImageBufferDeque.clearLoop d fuel s = some s' ∧ Represents s' (Deques.clear a d) := by
  induction fuel generalizing s a with
  | zero =>
    have ha : a d = [] := List.length_eq_zero_iff.mp (Nat.le_zero.mp hfuel)
    refine ⟨s, by simp [ImageBufferDeque.clearLoop, h.isEmpty_iff, ha], ?_⟩
    rwa [Deques.clear, ← ha, Function.update_eq_self]
  | succ fuel ih =>
    by_cases ha : a d = []
    · refine ⟨s, by simp [ImageBufferDeque.clearLoop, h.isEmpty_iff, ha], ?_⟩
      rwa [Deques.clear, ← ha, Function.update_eq_self]
    · obtain ⟨s', hs', hr⟩ := ih (h.popFront_represents d).1 (by
        simp only [Deques.popFront, Function.update_self, List.length_tail]
        omega)
      refine ⟨s', ?_, ?_⟩
      · rw [ImageBufferDeque.clearLoop, if_neg (by rw [h.isEmpty_iff]; exact ha), hs']
      · rwa [Deques.popFront, Deques.clear, Function.update_idem] at hr

theorem remove_represents (h : Represents s a) (d : D) (o : Option B) :
    ∃ s', ImageBufferDeque.remove s d o = some (s', (Deques.remove a d o).2) ∧
      Represents s' (Deques.remove a d o).1 := by
  unfold ImageBufferDeque.remove Deques.remove
  by_cases ha : a d = []
  · rw [if_pos ((h.isEmpty_iff d).mpr ha), if_pos ha]
    exact ⟨s, rfl, h⟩
  · rw [if_neg fun he => ha ((h.isEmpty_iff d).mp he), if_neg ha]
    cases o with
    | none => exact ⟨s, rfl, h⟩
    | some b =>
      have hfind : findFrom s (.item b) (ImageBufferDeque.walkBound B) (s.next (.head d)) =
          some (decide (b ∈ a d)) := by
        rw [h.next_head, ← List.head?_map,
          (h.chain d).tail.findFrom_eq _ (by simpa using (h.length_lt d).le)]
        simp
      simp only [hfind, Option.bind_eq_bind, Option.bind_some, decide_eq_true_eq]
      by_cases hb : b ∈ a d
      · obtain ⟨us, vs, -, hsplit, herase⟩ := List.exists_erase_eq hb
        rw [if_pos hb, if_pos hb, h.previous_item hsplit, h.next_item hsplit, herase]
        exact ⟨_, rfl, h.removed hsplit⟩
      · rw [if_neg hb, if_neg hb]
        exact ⟨s, rfl, h⟩

variable [Fintype D]

theorem pushBack_represents (h : Represents s a) (d : D) (o : Option B) :
    ∃ s', ImageBufferDeque.pushBack s d o = some (s', (Deques.pushBack a d o).2) ∧
      Represents s' (Deques.pushBack a d o).1 := by
  cases o with
  | none => exact ⟨s, rfl, h⟩
  | some b =>
    simp only [ImageBufferDeque.pushBack, Deques.pushBack]
    by_cases hb : ∃ e, b ∈ a e
    · rw [if_pos ((h.linked_iff b).mpr hb), if_pos hb]
      exact ⟨s, rfl, h⟩
    · rw [if_neg fun hl => hb ((h.linked_iff b).mp hl), if_neg hb, h.getLastEntry_eq]
      exact ⟨_, rfl, h.pushed d fun e he => hb ⟨e, he⟩⟩

omit [Fintype B] [Fintype D] in
/-- All of a deque go to another one, and the links still represent the lists: that is so
only when there is nothing to move and nothing is overwritten. -/
theorem popAll_represents_iff (h : Represents s a) (d e : D) :
    Represents (ImageBufferDeque.popAll s d e) (Deques.popAll a d e) ↔ a d = [] ∧ a e = [] := by
  have hitem (b : B) : (ImageBufferDeque.popAll s d e).previous (.item b) = s.previous (.item b) := by
    simp [ImageBufferDeque.popAll, Links.setNext, Links.setPrevious]
  have hold {f : D} {b : B} {bs : List B} (hf : a f = b :: bs) : s.previous (.item b) = some (.head f) :=
    h.previous_item (show a f = [] ++ b :: bs from hf)
  constructor
  · intro h'
    -- a buffer that is in no deque any more would have lost its links
    have hlost {f : D} {b : B} {bs : List B} (hf : a f = b :: bs)
        (hout : ∀ g, b ∉ Deques.popAll a d e g) : False := by
      have hnone := (h'.free b hout).2
      rw [hitem, hold hf] at hnone
      cases hnone
    have hd : a d = [] := by
      cases hd : a d with
      | nil => rfl
      | cons b bs =>
        by_cases hde : d = e
        · refine (hlost hd fun g hg => ?_).elim
          rw [Deques.popAll, ← hde, Function.update_idem] at hg
          by_cases hgd : g = d
          · rw [hgd, Function.update_self] at hg
            cases hg
          · rw [Function.update_of_ne hgd] at hg
            exact hgd (h.apart g d b hg (by simp [hd]))
        · have he : Deques.popAll a d e e = b :: bs := by
            rw [Deques.popAll, Function.update_of_ne (Ne.symm hde), Function.update_self, hd]
          have hprev := h'.previous_item (show Deques.popAll a d e e = [] ++ b :: bs from he)
          rw [hitem, hold hd] at hprev
          exact absurd (ImageBuffer.head.inj (Option.some.inj hprev)) hde
    refine ⟨hd, ?_⟩
    cases he : a e with
    | nil => rfl
    | cons c cs =>
      refine (hlost he fun g hg => ?_).elim
      rw [Deques.popAll, hd] at hg
      by_cases hgd : g = d
      · rw [hgd, Function.update_self] at hg
        cases hg
      · rw [Function.update_of_ne hgd] at hg
        by_cases hge : g = e
        · rw [hge, Function.update_self] at hg
          cases hg
        · rw [Function.update_of_ne hge] at hg
          exact hge (h.apart g e c hg (by simp [he]))
  · rintro ⟨hd, he⟩
    have hlists : Deques.popAll a d e = a := by
      rw [Deques.popAll, hd, ← he, Function.update_eq_self, he, ← hd, Function.update_eq_self]
    have hlinks : ImageBufferDeque.popAll s d e = s := by
      have hnd : s.next (.head d) = none := by rw [h.next_head, hd]; rfl
      have hne : s.next (.head e) = none := by rw [h.next_head, he]; rfl
      rw [ImageBufferDeque.popAll, hnd, h.start, Links.setPrevious_eq_self (h.start e),
        Links.setNext_eq_self hne, Links.unlinkItem, Links.setPrevious_eq_self (h.start d),
        Links.setNext_eq_self hnd]
    rw [hlists, hlinks]
    exact h

end Represents

section Runs
variable [DecidableEq D] [DecidableEq B] [Fintype D] [Fintype B]

/-- The links and the lists take the same calls. -/
structure DequeTrace (D B : Type) where
  links : DequeLinks D B := ImageBufferDeque.initialized
  lists : Deques D B := fun _ => []
  returned : List (DequeResult D B) := []
  expected : List (DequeResult D B) := []

def dequeStep (t : DequeTrace D B) (op : DequeOp D B) : Option (DequeTrace D B) := do
  let (links, result) ← ImageBufferDeque.call t.links op
  let (lists, expectation) := Deques.call t.lists op
  some { links, lists, returned := t.returned ++ [result], expected := t.expected ++ [expectation] }

def Refined (t : DequeTrace D B) : Prop := Represents t.links t.lists ∧ t.returned = t.expected

/-- A `pop_all` that has something to move or to overwrite. -/
def PopsItems (t : DequeTrace D B) : DequeOp D B → Prop
  | .popAll self target =>
    ¬ (ImageBufferDeque.isEmpty t.links self = true ∧ ImageBufferDeque.isEmpty t.links target = true)
  | _ => False

theorem call_represents {s : DequeLinks D B} {a : Deques D B} (h : Represents s a) (op : DequeOp D B) :
    ∃ s', ImageBufferDeque.call s op = some (s', (Deques.call a op).2) ∧
      ((∀ d e, op ≠ .popAll d e) → Represents s' (Deques.call a op).1) := by
  cases op with
  | pushBack self buffer =>
    obtain ⟨s', hs', hr⟩ := h.pushBack_represents self buffer
    exact ⟨s', by simp [ImageBufferDeque.call, hs', Deques.call], fun _ => hr⟩
  | popFront self =>
    obtain ⟨hr, hbuf⟩ := h.popFront_represents self
    exact ⟨_, by rw [ImageBufferDeque.call, hbuf]; rfl, fun _ => hr⟩
  | popAll self target => exact ⟨_, rfl, fun hne => absurd rfl (hne self target)⟩
  | moveItemsFrom self source distinct =>
    refine ⟨_, ?_, fun _ => h.moved distinct⟩
    simp [ImageBufferDeque.call, ImageBufferDeque.moveItemsFrom, h.getLastEntry_eq, Deques.call]
  | remove self buffer =>
    obtain ⟨s', hs', hr⟩ := h.remove_represents self buffer
    exact ⟨s', by simp [ImageBufferDeque.call, hs', Deques.call], fun _ => hr⟩
  | clear self =>
    obtain ⟨s', hs', hr⟩ := h.clearLoop_represents (h.length_lt self).le
    exact ⟨s', by simp [ImageBufferDeque.call, ImageBufferDeque.clear, hs', Deques.call], fun _ => hr⟩

theorem dequeStep_total {t : DequeTrace D B} (h : Refined t) (op : DequeOp D B) :
    ∃ t', dequeStep t op = some t' := by
  obtain ⟨s', hs', -⟩ := call_represents h.1 op
  exact ⟨_, by simp [dequeStep, hs']; rfl⟩

theorem dequeStep_refined {t t' : DequeTrace D B} {op : DequeOp D B} (h : Refined t)
    (ht : dequeStep t op = some t') : (¬ PopsItems t op → Refined t') ∧ (Refined t' → ¬ PopsItems t op) := by
  obtain ⟨s', hs', hr⟩ := call_represents h.1 op
  simp only [dequeStep, hs', Option.bind_eq_bind, Option.bind_some, Option.some.injEq] at ht
  subst ht
  have hsame : t.returned ++ [(Deques.call t.lists op).2] = t.expected ++ [(Deques.call t.lists op).2] := by
    rw [h.2]
  cases op with
  | popAll self target =>
    obtain rfl : ImageBufferDeque.popAll t.links self target = s' := by
      simpa [ImageBufferDeque.call, Deques.call] using hs'
    have hiff := h.1.popAll_represents_iff self target
    rw [← h.1.isEmpty_iff, ← h.1.isEmpty_iff] at hiff
    exact ⟨fun hp => ⟨hiff.mpr (not_not.mp hp), hsame⟩, fun ht => not_not.mpr (hiff.mp ht.1)⟩
  | _ => exact ⟨fun _ => ⟨hr (by simp), hsame⟩, fun _ hp => hp⟩

/-- The deques stay well formed and do what the lists do exactly in the runs in which
`pop_all` never has anything to do. -/
theorem deques_refined_iff (ops : List (DequeOp D B)) :
    (∃ t, run (ofOption dequeStep) ({} : DequeTrace D B) ops = .ok t) ∧
        Always (ofOption dequeStep) Refined ({} : DequeTrace D B) ops ↔
      Meets (ofOption dequeStep) (fun t op => ¬ PopsItems t op) ({} : DequeTrace D B) ops := by
  have hstart : Refined ({} : DequeTrace D B) := ⟨initialized_represents, rfl⟩
  have hiff : Always (ofOption dequeStep) Refined ({} : DequeTrace D B) ops ↔
      Meets (ofOption dequeStep) (fun t op => ¬ PopsItems t op) ({} : DequeTrace D B) ops :=
    always_iff_meets (fun _ h => h) (fun t op t' h ht => dequeStep_refined h (ofOption_ok.mp ht)) hstart ops
  refine ⟨fun h => hiff.mp h.2, fun hG => ⟨?_, hiff.mpr hG⟩⟩
  refine exists_run (P := Refined) (fun t op h => ?_) (fun t op t' hGe h ht => ?_) hstart hG
  · obtain ⟨t', ht'⟩ := dequeStep_total h op
    exact ⟨t', ofOption_ok.mpr ht'⟩
  · exact (dequeStep_refined h (ofOption_ok.mp ht)).1 hGe

end Runs

section Example

/-- The one buffer goes from deque 0 to deque 1, is removed there, and is put into deque 0 again. -/
def poppedThenRemoved : List (DequeOp (Fin 2) (Fin 1)) :=
  [.pushBack 0 (some 0), .popAll 0 1, .remove 1 (some 0), .pushBack 0 (some 0)]

/-- The buffer is the first of both deques then, though it was removed from the second. -/
theorem deques_share_buffer : ∃ t, run (ofOption dequeStep) ({} : DequeTrace (Fin 2) (Fin 1))
    poppedThenRemoved =
    .ok t ∧ t.links.next (.head 0) = some (.item 0) ∧ t.links.next (.head 1) = some (.item 0) ∧
      ¬ Refined t := by
  obtain ⟨t, ht, h⟩ := exists_of_check (ofOption dequeStep) ({} : DequeTrace (Fin 2) (Fin 1))
    poppedThenRemoved
    (fun t => decide (t.links.next (.head 0) = some (.item 0)) && decide (t.links.next (.head 1) = some (.item 0)) &&
      decide (t.lists 1 = [])) (by decide +kernel)
  simp only [Bool.and_eq_true, decide_eq_true_eq] at h
  refine ⟨t, ht, h.1.1, h.1.2, fun hr => ?_⟩
  have hnext := hr.1.next_head 1
  rw [h.1.2, h.2] at hnext
  cases hnext

end Example

end MenableDriver
