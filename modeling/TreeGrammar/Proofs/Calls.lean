import Mathlib
import TreeGrammar.Proofs.Looping

/-!
What a repetition asks its matchers. Each round of the loop makes at most one call: of the element
on the slice that the innermost frame has come to, or of the tail on the nodes after the frame's
start. A call that was made stays known by its frame, which goes on to longer slices, or by the
start of a frame that was given up; frames start at ever greater offsets and never where one was
given up, so no call is ever made again, whatever the matchers answer.
-/
namespace TreeGrammar.Matcher

/-- The matchers of a repetition. -/
inductive Role where
  | element
  | tail
deriving DecidableEq

/-- A call of a matcher on the nodes from one offset up to another one. -/
structure Call where
  role : Role
  start : Nat
  finish : Nat
deriving DecidableEq

namespace Call

/-- The call stays within so many nodes: an element has at least one node, and a tail has all nodes
that there are from its start on. -/
def Fits (count : Nat) (call : Call) : Prop :=
  match call.role with
  | .element => call.start < call.finish ∧ call.finish ≤ count
  | .tail => call.start ≤ count ∧ call.finish = count

/-- Which matcher is called, and on what. -/
def input {ν : Type} (nodes : List ν) (call : Call) : Role × List ν :=
  (call.role, slice nodes call.start call.finish)

end Call

namespace Loop

/-- The call that the next round makes. -/
inductive Due (count : Nat) : Loop → Call → Prop
  | element {start finish : Nat} {outer : List Frame} {values : List Value} {dead : List Nat} :
    finish ≤ count → finish ∉ dead →
      Due count ⟨⟨start, finish⟩ :: outer, values, dead⟩ ⟨.element, start, finish⟩
  | tail {start finish : Nat} {outer : List Frame} {values : List Value} {dead : List Nat} :
    count < finish → Due count ⟨⟨start, finish⟩ :: outer, values, dead⟩ ⟨.tail, start, count⟩

/-- A call is known to a loop: its frame was given up or has come to longer slices. -/
def Knows (loop : Loop) (call : Call) : Prop :=
  call.start ∈ loop.dead ∨
    call.role = .element ∧ ∃ f ∈ loop.frames, f.start = call.start ∧ call.finish < f.finish

/-- The calls that a loop has made. -/
structure Made (count : Nat) (loop : Loop) (calls : List Call) : Prop where
  once : calls.Nodup
  fits : ∀ call ∈ calls, call.Fits count
  known : ∀ call ∈ calls, loop.Knows call

variable {count : Nat} {loop after : Loop} {call : Call} {calls : List Call}

theorem made_initial : initial.Made count [] :=
  ⟨List.nodup_nil, fun _ h => (by cases h), fun _ h => (by cases h)⟩

/-- What a loop knows is not forgotten. -/
theorem Knows.next (hk : loop.Knows call) (hn : Next count loop after) : after.Knows call := by
  cases hn with
  | longer hf =>
    refine hk.imp_right fun ⟨hrole, f, hm, hstart, hlt⟩ => ⟨hrole, ?_⟩
    rcases List.mem_cons.mp hm with rfl | hm
    · exact ⟨_, List.mem_cons_self, hstart, Nat.lt_succ_of_lt hlt⟩
    · exact ⟨f, List.mem_cons_of_mem _ hm, hstart, hlt⟩
  | enter v hf hfree =>
    refine hk.imp_right fun ⟨hrole, f, hm, hstart, hlt⟩ => ⟨hrole, ?_⟩
    rcases List.mem_cons.mp hm with rfl | hm
    · exact ⟨_, List.mem_cons_of_mem _ List.mem_cons_self, hstart, Nat.lt_succ_of_lt hlt⟩
    · exact ⟨f, List.mem_cons_of_mem _ (List.mem_cons_of_mem _ hm), hstart, hlt⟩
  | leave hf =>
    rcases hk with hdead | ⟨hrole, f, hm, hstart, hlt⟩
    · exact .inl (List.mem_cons_of_mem _ hdead)
    · rcases List.mem_cons.mp hm with rfl | hm
      · exact .inl (hstart ▸ List.mem_cons_self)
      · exact .inr ⟨hrole, f, hm, hstart, hlt⟩

/-- The call of a round has not been made before. -/
theorem Due.not_knows (hd : Due count loop call) (hv : loop.Valid count) : ¬ loop.Knows call := by
  -- The innermost frame starts where none was given up and no other frame starts.
  obtain ⟨start, finish, outer, values, dead, rfl, hstart, hfinish⟩ :
      ∃ start finish outer values dead, loop = ⟨⟨start, finish⟩ :: outer, values, dead⟩ ∧
        call.start = start ∧ (call.role = .element → call.finish = finish) := by
    cases hd with
    | element => exact ⟨_, _, _, _, _, rfl, rfl, fun _ => rfl⟩
    | tail => exact ⟨_, _, _, _, _, rfl, rfl, fun h => (by cases h)⟩
  obtain ⟨habove, -⟩ := List.pairwise_cons.mp hv.rising
  rintro (hdead | ⟨hrole, f, hm, hsame, hlt⟩)
  · exact hv.alive _ List.mem_cons_self (hstart ▸ hdead)
  · rcases List.mem_cons.mp hm with rfl | hm
    · exact absurd (hfinish hrole) (Nat.ne_of_lt hlt)
    · have hbelow := habove _ (List.mem_map_of_mem hm)
      dsimp only at hbelow
      omega

theorem Due.fits (hd : Due count loop call) (hv : loop.Valid count) : call.Fits count := by
  cases hd with
  | element hf _ => exact ⟨(hv.bounds _ List.mem_cons_self).1, hf⟩
  | tail hf =>
    obtain ⟨hlt, hle⟩ := hv.bounds _ List.mem_cons_self
    dsimp only at hlt hle
    exact ⟨Nat.le_of_lt_succ (hlt.trans_le hle), rfl⟩

/-- A round knows the call that it makes. -/
theorem Due.knows_next (hd : Due count loop call) (hn : Next count loop after) :
    after.Knows call := by
  cases hd with
  | element hf _ =>
    cases hn with
    | longer => exact .inr ⟨rfl, _, List.mem_cons_self, rfl, Nat.lt_succ_self _⟩
    | enter v _ _ =>
      exact .inr ⟨rfl, _, List.mem_cons_of_mem _ List.mem_cons_self, rfl, Nat.lt_succ_self _⟩
    | leave hover => omega
  | tail hf =>
    cases hn with
    | longer hle => omega
    | enter v hle _ => omega
    | leave => exact .inl List.mem_cons_self

/-- A round that makes no call keeps to what was made. -/
theorem Made.next (hm : loop.Made count calls) (hn : Next count loop after) :
    after.Made count calls :=
  ⟨hm.once, hm.fits, fun call hc => (hm.known call hc).next hn⟩

/-- A round adds one call that is none of those before. -/
theorem Made.ask (hm : loop.Made count calls) (hv : loop.Valid count) (hd : Due count loop call)
    (hn : Next count loop after) : after.Made count (call :: calls) where
  once := List.nodup_cons.mpr ⟨fun hc => hd.not_knows hv (hm.known call hc), hm.once⟩
  fits := List.forall_mem_cons.mpr ⟨hd.fits hv, hm.fits⟩
  known := List.forall_mem_cons.mpr ⟨hd.knows_next hn, (hm.next hn).known⟩

end Loop

variable {m : Type → Type} [Monad m] {ν : Type}

/-- What matchers were called on, last call first. -/
abbrev Record (ν : Type) := List (Role × List ν)

/-- A matcher whose calls are recorded. The record is kept also where the matcher comes to
nothing. -/
def recorded (role : Role) (matcher : Matcher (OptionT m) ν) :
    Matcher (OptionT (StateT (Record ν) m)) ν :=
  fun nodes => OptionT.mk do
    modify ((role, nodes) :: ·)
    StateT.lift (matcher nodes).run

variable [LawfulMonad m]

theorem run_recorded_bind {α : Type} (role : Role) (matcher : Matcher (OptionT m) ν)
    (nodes : List ν) (f : Match ν → OptionT (StateT (Record ν) m) α) (record : Record ν) :
    (recorded role matcher nodes >>= f).run.run record =
      (matcher nodes).run >>= fun answer =>
        match answer with
        | some found => (f found).run.run ((role, nodes) :: record)
        | none => pure (none, (role, nodes) :: record) := by
  rw [OptionT.run_bind, Option.elimM, StateT.run_bind]
  simp only [recorded, OptionT.run_mk, StateT.run_bind, StateT.run_modify, pure_bind,
    StateT.run_lift, bind_assoc]
  congr 1
  funext answer
  cases answer with
  | none => rfl
  | some found => rfl

/-- Recording changes nothing else. -/
theorem run_recorded (element tail : Matcher (OptionT m) ν) (least rounds : Nat) (nodes : List ν)
    (loop : Loop) (record : Record ν) :
    Prod.fst <$> (Loop.run (recorded .element element) (recorded .tail tail) least nodes rounds
        loop).run.run record =
      (Loop.run element tail least nodes rounds loop).run := by
  induction rounds generalizing loop record with
  | zero => exact map_pure _ _
  | succ rounds ih =>
    obtain ⟨frames, values, dead⟩ := loop
    cases frames with
    | nil => exact map_pure _ _
    | cons f outer =>
      rw [Loop.run, Loop.run]
      split_ifs
      · exact ih _ _
      · rw [run_recorded_bind, map_bind, OptionT.run_bind, Option.elimM]
        congr 1
        funext answer
        rcases answer with _ | _ | ⟨v, _ | ⟨n, rest⟩⟩
        · exact map_pure _ _
        · exact ih _ _
        · exact ih _ _
        · exact ih _ _
      · rw [run_recorded_bind, map_bind, OptionT.run_bind, Option.elimM]
        congr 1
        funext answer
        rcases answer with _ | _ | ⟨v, rest⟩
        · exact map_pure _ _
        · exact ih _ _
        · exact map_pure _ _
      · exact ih _ _

/-- The record is one of different calls that fit the nodes. -/
def Distinct (nodes : List ν) (record : Record ν) : Prop :=
  ∃ calls : List Call, calls.Nodup ∧ (∀ call ∈ calls, call.Fits nodes.length) ∧
    record = calls.map (Call.input nodes)

namespace Loop

theorem Made.distinct {loop : Loop} {nodes : List ν} {calls : List Call}
    (hm : loop.Made nodes.length calls) : Distinct nodes (calls.map (Call.input nodes)) :=
  ⟨calls, hm.once, hm.fits, rfl⟩

/-- A loop that has made some calls adds others to them, none of them twice. -/
theorem run_made (element tail : Matcher (OptionT m) ν) (least rounds : Nat) {nodes : List ν}
    {loop : Loop} {calls : List Call} (hv : loop.Valid nodes.length)
    (hm : loop.Made nodes.length calls) :
    SatisfiesM (fun r => Distinct nodes r.2)
      ((run (recorded .element element) (recorded .tail tail) least nodes rounds loop).run.run
        (calls.map (Call.input nodes))) := by
  -- A round that makes a call makes the one that is due, and the answer only tells which of the
  -- next loops there is; both `Valid` and `Made` hold of all of them.
  induction rounds generalizing loop calls with
  | zero => exact SatisfiesM.pure hm.distinct
  | succ rounds ih =>
    obtain ⟨frames, values, dead⟩ := loop
    cases frames with
    | nil => exact SatisfiesM.pure hm.distinct
    | cons f outer =>
      obtain ⟨start, finish⟩ := f
      have hskip {after : Loop} (hn : Next nodes.length ⟨⟨start, finish⟩ :: outer, values, dead⟩
          after) := ih (hv.next hn) (hm.next hn)
      have hcall {call : Call} {after : Loop}
          (hd : Due nodes.length ⟨⟨start, finish⟩ :: outer, values, dead⟩ call)
          (hn : Next nodes.length ⟨⟨start, finish⟩ :: outer, values, dead⟩ after) :=
        ih (hv.next hn) (hm.ask hv hd hn)
      rw [run]
      by_cases hle : finish ≤ nodes.length
      · rw [if_pos hle]
        by_cases hdead : finish ∈ dead
        · rw [if_pos hdead]
          exact hskip (.longer hle)
        · have hdue : Due nodes.length ⟨⟨start, finish⟩ :: outer, values, dead⟩
              ⟨.element, start, finish⟩ := .element hle hdead
          rw [if_neg hdead, run_recorded_bind]
          refine SatisfiesM.bind SatisfiesM.trivial fun answer _ => ?_
          rcases answer with _ | _ | ⟨v, _ | ⟨n, rest⟩⟩
          · exact SatisfiesM.pure (hm.ask hv hdue (.longer hle)).distinct
          · exact hcall hdue (.longer hle)
          · exact hcall hdue (.enter v hle hdead)
          · exact hcall hdue (.longer hle)
      · have hover : nodes.length < finish := Nat.lt_of_not_le hle
        have hdue : Due nodes.length ⟨⟨start, finish⟩ :: outer, values, dead⟩
            ⟨.tail, start, nodes.length⟩ := .tail hover
        have hinput :
            Call.input nodes ⟨.tail, start, nodes.length⟩ = (.tail, nodes.drop start) := by
          rw [Call.input, slice_length]
        rw [if_neg hle]
        by_cases hl : least ≤ values.length
        · rw [if_pos hl, run_recorded_bind, ← hinput]
          refine SatisfiesM.bind SatisfiesM.trivial fun answer _ => ?_
          rcases answer with _ | _ | ⟨v, rest⟩
          · exact SatisfiesM.pure (hm.ask hv hdue (.leave hover)).distinct
          · exact hcall hdue (.leave hover)
          · exact SatisfiesM.pure (hm.ask hv hdue (.leave hover)).distinct
        · rw [if_neg hl]
          exact hskip (.leave hover)

end Loop

/-- How often the matcher of a role was called. -/
def callsOf (role : Role) (record : Record ν) : Nat :=
  record.countP fun call => call.1 = role

section
variable {nodes : List ν} {calls : List Call}

theorem callsOf_map_input (role : Role) (nodes : List ν) (calls : List Call) :
    callsOf role (calls.map (Call.input nodes)) =
      (calls.filter fun call => call.role = role).length := by
  rw [callsOf, List.countP_map, List.countP_eq_length_filter]
  rfl

/-- Different calls of one role are no more than a set that holds them. -/
theorem callsOf_le_card {role : Role} (hn : calls.Nodup) {all : Finset Call}
    (hall : ∀ call ∈ calls, call.role = role → call ∈ all) :
    callsOf role (calls.map (Call.input nodes)) ≤ all.card := by
  rw [callsOf_map_input, ← List.toFinset_card_of_nodup (hn.filter _)]
  apply Finset.card_le_card
  intro call hc
  obtain ⟨hmem, hrole⟩ := List.mem_filter.mp (List.mem_toFinset.mp hc)
  exact hall call hmem (of_decide_eq_true hrole)

theorem callsOf_element_le {record : Record ν} (h : Distinct nodes record) :
    callsOf .element record ≤ nodes.length * (nodes.length + 1) / 2 := by
  obtain ⟨calls, hn, hfits, rfl⟩ := h
  -- The pairs of offsets, by the greater one.
  let all : Finset Call := ((Finset.range (nodes.length + 1)).sigma fun finish =>
    Finset.range finish).image fun pair => ⟨.element, pair.2, pair.1⟩
  have hcard : all.card ≤ ∑ finish ∈ Finset.range (nodes.length + 1), finish := by
    refine Finset.card_image_le.trans ?_
    simp only [Finset.card_sigma, Finset.card_range, le_refl]
  rw [Finset.sum_range_id, Nat.add_sub_cancel, Nat.mul_comm] at hcard
  refine (callsOf_le_card hn fun call hc hrole => ?_).trans hcard
  obtain ⟨role, start, finish⟩ := call
  obtain rfl : role = .element := hrole
  have hcall := hfits _ hc
  simp only [Call.Fits] at hcall
  simp only [all, Finset.mem_image, Finset.mem_sigma, Finset.mem_range]
  exact ⟨⟨finish, start⟩, ⟨Nat.lt_succ_of_le hcall.2, hcall.1⟩, rfl⟩

theorem callsOf_tail_le {record : Record ν} (h : Distinct nodes record) :
    callsOf .tail record ≤ nodes.length + 1 := by
  obtain ⟨calls, hn, hfits, rfl⟩ := h
  let all : Finset Call := (Finset.range (nodes.length + 1)).image fun start =>
    ⟨.tail, start, nodes.length⟩
  have hcard : all.card ≤ nodes.length + 1 :=
    Finset.card_image_le.trans (Finset.card_range _).le
  refine (callsOf_le_card hn fun call hc hrole => ?_).trans hcard
  obtain ⟨role, start, finish⟩ := call
  obtain rfl : role = .tail := hrole
  obtain ⟨hstart, rfl⟩ := hfits _ hc
  simp only [all, Finset.mem_image, Finset.mem_range]
  exact ⟨start, Nat.lt_succ_of_le hstart, rfl⟩

/-- Where all nodes are different, so are the slices of different calls. -/
theorem Distinct.nodup {record : Record ν} (h : Distinct nodes record) (hnodes : nodes.Nodup) :
    record.Nodup := by
  obtain ⟨calls, hn, hfits, rfl⟩ := h
  refine hn.map_on fun a ha b hb hab => ?_
  obtain ⟨role, start, finish⟩ := a
  obtain ⟨role', start', finish'⟩ := b
  have ha := hfits _ ha
  have hb := hfits _ hb
  obtain ⟨rfl, hslice⟩ := Prod.mk.inj hab
  -- The length of a slice gives its end, and its first node gives its start.
  have hlength := congrArg List.length hslice
  simp only [slice, List.length_take, List.length_drop] at hlength
  cases role with
  | element =>
    simp only [Call.Fits] at ha hb
    have hfirst := congrArg List.head? hslice
    simp only [slice, List.head?_take, List.head?_drop] at hfirst
    rw [if_neg (by omega), if_neg (by omega)] at hfirst
    have hstart : start < nodes.length := ha.1.trans_le ha.2
    obtain rfl : start = start' := (List.getElem?_inj hstart hnodes).mp hfirst
    obtain rfl : finish = finish' := by omega
    rfl
  | tail =>
    simp only [Call.Fits] at ha hb
    obtain rfl : start = start' := by omega
    obtain rfl : finish = finish' := by omega
    rfl

end

/-- No slice is tried twice by a repetition, whatever its matchers do and answer. The calls that it
makes are of the element on slices that start before they end, and of the tail on the nodes from an
offset on; no two of them are at the same place, so where the nodes are different from each other no
two are on the same nodes. The loop over frames therefore ends, with one call of the element for
each pair of offsets at most and one of the tail for each offset. -/
theorem no_slice_retried (element tail : Matcher (OptionT m) ν) (least : Nat) (nodes : List ν) :
    repetitionWithin loopRounds least (recorded .element element) (recorded .tail tail) nodes =
      repetition least (recorded .element element) (recorded .tail tail) nodes ∧
    Prod.fst <$> (repetition least (recorded .element element) (recorded .tail tail)
        nodes).run.run [] = (repetition least element tail nodes).run ∧
    SatisfiesM (fun r => Distinct nodes r.2 ∧ (nodes.Nodup → r.2.Nodup) ∧
        callsOf .element r.2 ≤ nodes.length * (nodes.length + 1) / 2 ∧
        callsOf .tail r.2 ≤ nodes.length + 1)
      ((repetition least (recorded .element element) (recorded .tail tail) nodes).run.run []) := by
  have hrounds : ∀ count, loopRounds count ≤ loopRounds count := fun _ => le_rfl
  rw [← repetitionWithin_eq hrounds, ← repetitionWithin_eq hrounds]
  refine ⟨rfl, run_recorded element tail least _ nodes _ [], ?_⟩
  have hvalid : Loop.initial.Valid nodes.length := Loop.valid_initial
  have hmade := Loop.run_made element tail least (loopRounds nodes.length) hvalid Loop.made_initial
  exact hmade.imp fun hd => ⟨hd, hd.nodup, callsOf_element_le hd, callsOf_tail_le hd⟩

/-- The tail is tried at all offsets, from the last one back, and the slice of both nodes is left
out: nothing matches from the last offset. -/
theorem failing_star_calls :
    LawfulMonad Id ∧
    ((star (recorded .element fun _ => pure (some (.unit, []))) (recorded .tail fun _ => pure none)
      [1, 2] : OptionT (StateT (Record Nat) Id) (Match Nat)).run.run []).2 =
        [(.tail, [1, 2]), (.tail, [2]), (.tail, []), (.element, [2]), (.element, [1])] ∧
    Distinct [1, 2]
      [(.tail, [1, 2]), (.tail, [2]), (.tail, []), (.element, [2]), (.element, [1])] := by
  obtain ⟨-, -, hcalls⟩ := no_slice_retried (m := Id) (fun _ => pure (some (.unit, [])))
    (fun _ => pure none) 0 [1, 2]
  exact ⟨inferInstance, rfl, (SatisfiesM_Id_eq.mp hcalls).1⟩

end TreeGrammar.Matcher
