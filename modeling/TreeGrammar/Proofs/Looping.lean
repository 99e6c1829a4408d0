import Mathlib.Algebra.BigOperators.Intervals
import TreeGrammar.Matcher.Loop
import TreeGrammar.Matcher.Repetition

/-!
The loop of a repetition ends. What is left to do in a loop is measured by the ends that its frames
have still to try and by the offsets at which no frame has started yet; each round takes one off.
Frames start at ever greater offsets, and none starts where one was given up. A loop with enough
rounds does what the search does that is written as a recursion.
-/
namespace TreeGrammar.Matcher

namespace Loop

/-- The offsets at which a frame may still start. -/
def places (count : Nat) (loop : Loop) : Finset Nat :=
  (Finset.range (count + 1)).filter fun s => s ∉ loop.dead ∧ s ∉ loop.frames.map Frame.start

/-- How many rounds are left at most, over so many nodes. -/
def left (count : Nat) (loop : Loop) : Nat :=
  (loop.frames.map fun f => count + 2 - f.finish).sum + ∑ s ∈ loop.places count, (count + 1 - s)

/-- How a loop is that has come from the initial one. -/
structure Valid (count : Nat) (loop : Loop) : Prop where
  /-- Inner frames start after outer ones. -/
  rising : (loop.frames.map Frame.start).Pairwise (· > ·)
  bounds : ∀ f ∈ loop.frames, f.start < f.finish ∧ f.finish ≤ count + 1
  alive : ∀ f ∈ loop.frames, f.start ∉ loop.dead
  dead : ∀ s ∈ loop.dead, s ≤ count

/-- What a round may lead to, whatever the matchers answer. -/
inductive Next (count : Nat) : Loop → Loop → Prop
  /-- The slice of the innermost frame gets longer. -/
  | longer {start finish : Nat} {outer : List Frame} {values : List Value} {dead : List Nat} :
    finish ≤ count → Next count ⟨⟨start, finish⟩ :: outer, values, dead⟩
      ⟨⟨start, finish + 1⟩ :: outer, values, dead⟩
  /-- A frame starts after the slice. -/
  | enter {start finish : Nat} {outer : List Frame} {values : List Value} {dead : List Nat}
      (v : Value) : finish ≤ count → finish ∉ dead →
    Next count ⟨⟨start, finish⟩ :: outer, values, dead⟩
      ⟨⟨finish, finish + 1⟩ :: ⟨start, finish + 1⟩ :: outer, v :: values, dead⟩
  /-- The innermost frame is given up. -/
  | leave {start finish : Nat} {outer : List Frame} {values : List Value} {dead : List Nat} :
    count < finish → Next count ⟨⟨start, finish⟩ :: outer, values, dead⟩
      ⟨outer, values.tail, start :: dead⟩

variable {count : Nat} {loop after : Loop}

theorem valid_initial : initial.Valid count := by
  refine ⟨List.pairwise_singleton _ _, fun f hf => ?_, fun f _ => List.not_mem_nil, fun s hs => ?_⟩
  · rw [List.mem_singleton.mp hf]
    exact ⟨Nat.one_pos, Nat.succ_le_succ (Nat.zero_le count)⟩
  · cases hs

theorem Valid.next (hv : loop.Valid count) (hn : Next count loop after) : after.Valid count := by
  obtain ⟨hrising, hbounds, halive, hdead⟩ := hv
  cases hn with
  | longer hf =>
    obtain ⟨hfirst, hrest⟩ := List.forall_mem_cons.mp hbounds
    obtain ⟨hlive, hlives⟩ := List.forall_mem_cons.mp halive
    exact ⟨hrising, List.forall_mem_cons.mpr ⟨by dsimp only at *; omega, hrest⟩,
      List.forall_mem_cons.mpr ⟨hlive, hlives⟩, hdead⟩
  | enter v hf hfree =>
    obtain ⟨hfirst, hrest⟩ := List.forall_mem_cons.mp hbounds
    obtain ⟨hlive, hlives⟩ := List.forall_mem_cons.mp halive
    obtain ⟨habove, hpair⟩ := List.pairwise_cons.mp hrising
    -- The new frame starts after the innermost one, so after all of them.
    refine ⟨List.pairwise_cons.mpr ⟨fun s hs => ?_, hrising⟩, ?_, ?_, hdead⟩
    · rcases List.mem_cons.mp hs with rfl | hs
      · exact hfirst.1
      · exact (habove s hs).trans hfirst.1
    · exact List.forall_mem_cons.mpr ⟨by dsimp only; omega,
        List.forall_mem_cons.mpr ⟨by dsimp only at *; omega, hrest⟩⟩
    · exact List.forall_mem_cons.mpr ⟨hfree, List.forall_mem_cons.mpr ⟨hlive, hlives⟩⟩
  | leave hf =>
    obtain ⟨hfirst, hrest⟩ := List.forall_mem_cons.mp hbounds
    obtain ⟨hlive, hlives⟩ := List.forall_mem_cons.mp halive
    obtain ⟨habove, hpair⟩ := List.pairwise_cons.mp hrising
    refine ⟨hpair, hrest, fun f hm => ?_, fun s hs => ?_⟩
    · intro hs
      rcases List.mem_cons.mp hs with hs | hs
      · exact absurd (habove _ (List.mem_map_of_mem hm)) (by rw [hs]; exact lt_irrefl _)
      · exact hlives f hm hs
    · rcases List.mem_cons.mp hs with rfl | hs
      · dsimp only at hfirst
        omega
      · exact hdead s hs

/-- A round takes one off what is left to do. -/
theorem left_next (hv : loop.Valid count) (hn : Next count loop after) :
    after.left count + 1 = loop.left count := by
  obtain ⟨hrising, hbounds, -, -⟩ := hv
  cases hn with
  | longer hf =>
    simp only [left, places, List.map_cons, List.sum_cons]
    omega
  | @enter start finish outer values dead v hf hfree =>
    obtain ⟨hfirst, -⟩ := List.forall_mem_cons.mp hbounds
    obtain ⟨habove, -⟩ := List.pairwise_cons.mp hrising
    -- The place of the new frame was free, and it is not any more.
    have hnew : finish ∉ start :: outer.map Frame.start := by
      intro hm
      rcases List.mem_cons.mp hm with hm | hm
      · dsimp only at hfirst
        omega
      · have hbelow := habove _ hm
        dsimp only at hbelow hfirst
        omega
    have hplaces : (Loop.mk (⟨finish, finish + 1⟩ :: ⟨start, finish + 1⟩ :: outer) (v :: values)
        dead).places count = ((Loop.mk (⟨start, finish⟩ :: outer) values dead).places count).erase
          finish := by
      ext s
      simp only [places, Finset.mem_filter, Finset.mem_erase, List.map_cons, List.mem_cons]
      tauto
    have hmem : finish ∈ (Loop.mk (⟨start, finish⟩ :: outer) values dead).places count := by
      simp only [places, Finset.mem_filter, Finset.mem_range, List.map_cons]
      exact ⟨by omega, hfree, hnew⟩
    have hsum := Finset.add_sum_erase _ (fun s => count + 1 - s) hmem
    simp only [left, hplaces, List.map_cons, List.sum_cons] at hsum ⊢
    omega
  | @leave start finish outer values dead hf =>
    obtain ⟨hfirst, -⟩ := List.forall_mem_cons.mp hbounds
    have hplaces : (Loop.mk outer values.tail (start :: dead)).places count =
        (Loop.mk (⟨start, finish⟩ :: outer) values dead).places count := by
      ext s
      simp only [places, Finset.mem_filter, List.map_cons, List.mem_cons]
      tauto
    simp only [left, hplaces, List.map_cons, List.sum_cons]
    dsimp only at hfirst
    omega

/-- A loop has as many rounds before it at most as there are slices and offsets. -/
theorem two_mul_left_initial (count : Nat) :
    2 * (initial.left count) = (count + 1) * (count + 2) := by
  have hplaces : initial.places count = (Finset.range (count + 1)).erase 0 := by
    ext s
    simp only [initial, places, Finset.mem_filter, Finset.mem_erase, List.map_cons, List.map_nil,
      List.mem_singleton, List.not_mem_nil]
    tauto
  have hmem : 0 ∈ Finset.range (count + 1) := Finset.mem_range.mpr (Nat.succ_pos count)
  have hsum := Finset.add_sum_erase _ (fun s => count + 1 - s) hmem
  have hleft : initial.left count = ∑ s ∈ Finset.range (count + 1), (count + 1 - s) := by
    rw [left, hplaces, ← hsum]
    rfl
  have hreflect : ∑ s ∈ Finset.range (count + 1), (count + 1 - s) =
      ∑ s ∈ Finset.range (count + 1), (s + 1) := by
    rw [← Finset.sum_range_reflect]
    apply Finset.sum_congr rfl
    intro s hs
    have hlt := Finset.mem_range.mp hs
    omega
  have hgauss := Finset.sum_range_id_mul_two (count + 2)
  rw [Finset.sum_range_succ'] at hgauss
  rw [hleft, hreflect, Nat.mul_comm]
  simpa [Nat.mul_comm] using hgauss

section
variable {ν : Type} {nodes : List ν} {start finish : Nat}

theorem slice_succ (hs : start < finish) (h : finish - 1 < nodes.length) :
    slice nodes start finish = slice nodes start (finish - 1) ++ [nodes[finish - 1]] := by
  have hlt : finish - 1 - start < (nodes.drop start).length := by
    rw [List.length_drop]
    omega
  have hone : finish - start = finish - 1 - start + 1 := by omega
  have hindex : start + (finish - 1 - start) = finish - 1 := by omega
  rw [slice, slice, hone, List.take_succ_eq_append_getElem hlt]
  simp only [List.getElem_drop, hindex]

theorem drop_pred (hs : start < finish) (h : finish - 1 < nodes.length) :
    nodes.drop (finish - 1) = nodes[finish - 1] :: nodes.drop finish := by
  rw [List.drop_eq_getElem_cons h]
  congr 2
  omega

theorem slice_length (start : Nat) : slice nodes start nodes.length = nodes.drop start := by
  rw [slice, ← List.length_drop, List.take_length]

variable {m : Type → Type} [Monad m]

/-- What a loop comes to where the search looks through the slices of each frame. The places that
the search remembers are known by the nodes after them. -/
def resume (element tail : Matcher (OptionT m) ν) (least : Nat) (nodes : List ν) :
    List Frame → List Value → List Nat → OptionT m (Match ν)
  | [], _, _ => pure none
  | f :: outer, values, dead => do
    match ← search element tail least (slice nodes f.start (f.finish - 1))
        (nodes.drop (f.finish - 1)) values dead with
    | .found v rest => pure (some (v, rest))
    | .exhausted dead => resume element tail least nodes outer values.tail dead

/-- A place is remembered by the offset or by the nodes after it. -/
theorem Valid.mem_dead_iff {loop : Loop} (hv : loop.Valid nodes.length)
    (hf : finish ≤ nodes.length) :
    (nodes.drop finish).length ∈ loop.dead.map (nodes.length - ·) ↔ finish ∈ loop.dead := by
  rw [List.length_drop, List.mem_map]
  constructor
  · rintro ⟨s, hs, heq⟩
    have hle := hv.dead s hs
    have hsame : s = finish := by omega
    exact hsame ▸ hs
  · exact fun hm => ⟨finish, hm, rfl⟩

variable [LawfulMonad m]

/-- Enough rounds do what the search does. -/
theorem run_eq_resume (element tail : Matcher (OptionT m) ν) (least rounds : Nat) {loop : Loop}
    (hv : loop.Valid nodes.length) (hr : loop.left nodes.length < rounds) :
    run element tail least nodes rounds loop =
      resume element tail least nodes loop.frames loop.values
        (loop.dead.map (nodes.length - ·)) := by
  induction rounds generalizing loop with
  | zero => exact absurd hr (Nat.not_lt_zero _)
  | succ rounds ih =>
    -- Whatever a round leads to has one round less to go.
    have hnext {after : Loop} (hn : Next nodes.length loop after) :
        run element tail least nodes rounds after =
          resume element tail least nodes after.frames after.values
            (after.dead.map (nodes.length - ·)) := by
      have hleft := left_next hv hn
      exact ih (hv.next hn) (by omega)
    obtain ⟨frames, values, dead⟩ := loop
    cases frames with
    | nil => rfl
    | cons f outer =>
      obtain ⟨start, finish⟩ := f
      have hf := hv.bounds _ List.mem_cons_self
      dsimp only at hf
      rw [run]
      by_cases hle : finish ≤ nodes.length
      · have hdead := hv.mem_dead_iff hle
        have hlast : finish - 1 < nodes.length := by omega
        dsimp only at hdead
        rw [if_pos hle, resume, drop_pred hf.1 hlast, search, ← slice_succ hf.1 hlast]
        by_cases hm : finish ∈ dead
        · rw [if_pos hm, if_pos (hdead.mpr hm), hnext (.longer hle)]
          rfl
        · rw [if_neg hm, if_neg (fun h => hm (hdead.mp h)), bind_assoc]
          congr 1
          funext found
          rcases found with _ | ⟨v, _ | ⟨n, rest⟩⟩
          · exact hnext (.longer hle)
          -- The search goes on after the element, and with a longer slice if nothing is found.
          · have hempty : slice nodes finish finish = [] := by
              rw [slice, Nat.sub_self, List.take_zero]
            refine (hnext (.enter v hle hm)).trans ?_
            rw [resume, Nat.add_sub_cancel, hempty]
            dsimp only
            rw [bind_assoc]
            congr 1
            funext inner
            cases inner with
            | found w rest => rw [pure_bind]
            | exhausted dead => rfl
          · exact hnext (.longer hle)
      -- No slice is left to try, so the tail decides.
      · obtain rfl : finish = nodes.length + 1 := by omega
        have hleave := hnext (.leave (Nat.lt_succ_self nodes.length))
        rw [List.map_cons] at hleave
        rw [if_neg hle, resume, Nat.add_sub_cancel, slice_length, List.drop_length, search,
          List.length_drop]
        by_cases hl : least ≤ values.length
        · rw [if_pos hl, if_pos hl, bind_assoc]
          congr 1
          funext found
          cases found with
          | none =>
            rw [pure_bind]
            exact hleave
          | some r => rw [pure_bind]
        · rw [if_neg hl, if_neg hl, pure_bind]
          exact hleave

end

end Loop

/-- As many rounds as a repetition over so many nodes can take: one for each slice, one for each
offset, and the last one. -/
def loopRounds (count : Nat) : Nat :=
  (count + 1) * (count + 2) / 2 + 1

/-- A loop with enough rounds is the repetition: it ends, and it answers the same. -/
theorem repetitionWithin_eq {m : Type → Type} [Monad m] [LawfulMonad m] {ν : Type}
    {rounds : Nat → Nat} (hr : ∀ count, loopRounds count ≤ rounds count) (least : Nat)
    (element tail : Matcher (OptionT m) ν) :
    repetitionWithin rounds least element tail = repetition least element tail := by
  funext nodes
  have hleft : Loop.initial.left nodes.length < rounds nodes.length := by
    have htwice := Loop.two_mul_left_initial nodes.length
    have hrounds := hr nodes.length
    rw [loopRounds] at hrounds
    omega
  rw [repetitionWithin, Loop.run_eq_resume element tail least _ Loop.valid_initial hleft]
  change (search element tail least (slice nodes 0 0) nodes [] [] >>= _) = _
  rw [repetition]
  congr 1

end TreeGrammar.Matcher
