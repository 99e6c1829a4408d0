import Mathlib.Data.List.DropRight
import TreeGrammar.Proofs.Hygiene
import TreeGrammar.Script.Run

/-!
Frames as time goes on. A name of the code is assigned once in a call, so what it is bound to stays,
while `res`, `nodes` and the parts of results are assigned again and again. So a function does the
same in every later state of the frames around its definition, and under every frame put on them.
-/
namespace TreeGrammar.Script

open Code (Host RunFault Local Env Joint)

variable {ν : Type}

/-- The second frame is a later state of the first one. -/
def Frame.Keeps (frame frame' : Frame ν) : Prop :=
  frame'.locals = frame.locals ∧ ∀ (x : Local) (d : Datum ν),
    frame.vars.lookup x.name = some d → frame'.vars.lookup x.name = some d

namespace Chain

/-- Only the innermost frame is at work, the ones around it stay as they are. -/
def Keeps : Chain ν → Chain ν → Prop
  | [], [] => True
  | frame :: outer, frame' :: outer' => frame.Keeps frame' ∧ outer' = outer
  | _, _ => False

/-- A later state of the frames, with others on top. -/
def Later (chain chain' : Chain ν) : Prop :=
  ∃ above base, chain' = above ++ base ∧ chain.Keeps base

/-- The names that are local to the innermost call. -/
def locals : Chain ν → List String
  | [] => []
  | frame :: _ => frame.locals

/-- What is assigned in the innermost call. -/
def vars : Chain ν → List (String × Datum ν)
  | [] => []
  | frame :: _ => frame.vars

variable {chain chain' chain'' : Chain ν} {word : String} {d : Datum ν}

theorem keeps_refl (chain : Chain ν) : chain.Keeps chain := by
  cases chain with
  | nil => trivial
  | cons frame outer => exact ⟨⟨rfl, fun _ _ h => h⟩, rfl⟩

theorem Keeps.trans (h : chain.Keeps chain') (h' : chain'.Keeps chain'') :
    chain.Keeps chain'' := by
  cases chain <;> cases chain' <;> cases chain'' <;> try exact h.elim
  · exact h'
  · exact h'.elim
  · exact h'.elim
  · obtain ⟨⟨hlocals, hvars⟩, rfl⟩ := h
    obtain ⟨⟨hlocals', hvars'⟩, rfl⟩ := h'
    exact ⟨⟨hlocals'.trans hlocals, fun x d hd => hvars' x d (hvars x d hd)⟩, rfl⟩

theorem Keeps.length_eq (h : chain.Keeps chain') : chain'.length = chain.length := by
  cases chain <;> cases chain' <;> try exact h.elim
  · rfl
  · rw [List.length_cons, List.length_cons, h.2]

theorem Keeps.locals_eq (h : chain.Keeps chain') : chain'.locals = chain.locals := by
  cases chain <;> cases chain' <;> try exact h.elim
  · rfl
  · exact h.1.1

/-- What a name of the code is bound to stays. -/
theorem Keeps.lookUp (h : chain.Keeps chain') {x : Local} (hx : chain.lookUp x.name = some d) :
    chain'.lookUp x.name = some d := by
  cases chain <;> cases chain' <;> try exact h.elim
  · exact hx
  · obtain ⟨⟨hlocals, hvars⟩, rfl⟩ := h
    rw [Chain.lookUp] at hx ⊢
    rw [hlocals]
    split at hx
    · rename_i hmem
      rw [if_pos hmem]
      exact hvars x d hx
    · rename_i hmem
      rw [if_neg hmem]
      exact hx

theorem Keeps.later (h : chain.Keeps chain') : chain.Later chain' :=
  ⟨[], chain', rfl, h⟩

theorem later_cons (frame : Frame ν) (chain : Chain ν) : chain.Later (frame :: chain) :=
  ⟨[frame], chain, rfl, keeps_refl chain⟩

theorem Later.trans (h : chain.Later chain') (h' : chain'.Later chain'') :
    chain.Later chain'' := by
  obtain ⟨above, base, rfl, hbase⟩ := h
  obtain ⟨above', base', rfl, hbase'⟩ := h'
  cases above with
  | nil => exact ⟨above', base', rfl, hbase.trans hbase'⟩
  | cons frame above =>
    -- The frames below the first one have not changed.
    cases base' with
    | nil => exact hbase'.elim
    | cons frame' outer =>
      obtain ⟨-, rfl⟩ := hbase'
      exact ⟨above' ++ frame' :: above, base, by simp, hbase⟩

/-- The frames around a definition, found again at a later time. -/
theorem Later.keeps_around (h : chain.Later chain') : chain.Keeps (chain'.around chain.length) := by
  obtain ⟨above, base, rfl, hbase⟩ := h
  have haround : (above ++ base).rtake chain.length = base := by
    rw [List.rtake_eq_reverse_take_reverse, List.reverse_append, ← hbase.length_eq,
      ← List.length_reverse, List.take_left, List.reverse_reverse]
  rw [around, haround]
  exact hbase

@[simp] theorem locals_assign (chain : Chain ν) (word : String) (d : Datum ν) :
    (chain.assign word d).locals = chain.locals := by
  cases chain <;> rfl

theorem lookUp_assign_self (h : word ∈ chain.locals) :
    (chain.assign word d).lookUp word = some d := by
  cases chain with
  | nil => cases h
  | cons frame outer =>
    have hself : ((word, d) :: frame.vars).lookup word = some d := List.lookup_cons_self
    exact (if_pos h).trans hself

theorem lookUp_assign_of_ne {other : String} (h : other ≠ word) :
    (chain.assign word d).lookUp other = chain.lookUp other := by
  cases chain with
  | nil => rfl
  | cons frame outer =>
    have hother : ((word, d) :: frame.vars).lookup other = frame.vars.lookup other := by
      rw [List.lookup_cons, beq_eq_false_iff_ne.mpr h]
    rw [assign, lookUp, lookUp, hother]

/-- A name of the code is assigned only where it is not bound yet. -/
theorem keeps_assign (h : ∀ x : Local, x.name = word → chain.vars.lookup word = none) :
    chain.Keeps (chain.assign word d) := by
  cases chain with
  | nil => trivial
  | cons frame outer =>
    refine ⟨⟨rfl, fun x e he => ?_⟩, rfl⟩
    have hne : x.name ≠ word := by
      intro hx
      have hnone := h x hx
      rw [← hx] at hnone
      cases hnone.symm.trans he
    rw [List.lookup_cons, beq_eq_false_iff_ne.mpr hne]
    exact he

end Chain

variable {m : Type → Type} [Monad m] [MonadExceptOf RunFault m] {host : Host m ν}

/-- The function is the matcher, now and later, where at least so many calls may be nested. -/
def Denotes (host : Host m ν) (least : Nat) (chain : Chain ν) (function : Function)
    (matcher : Matcher m ν) : Prop :=
  ∀ limit, least ≤ limit → ∀ chain', chain.Later chain' →
    invoke host limit chain' function = matcher

/-- Each of the visible names is bound to a function, which is its matcher. -/
def Binds (host : Host m ν) (least : Nat) (visible : List Local) (chain : Chain ν)
    (env : Env m ν) : Prop :=
  ∀ x ∈ visible, ∃ function matcher, chain.lookUp x.name = some (.function function) ∧
    env x = some matcher ∧ Denotes host least chain function matcher

section
variable {least least' : Nat} {visible : List Local} {chain chain' : Chain ν} {env : Env m ν}
  {f g : Function} {a b : Matcher m ν}

theorem Denotes.later (h : Denotes host least chain f a) (hl : chain.Later chain') :
    Denotes host least chain' f a :=
  fun limit hlimit chain'' hl' => h limit hlimit chain'' (hl.trans hl')

theorem Denotes.mono (h : Denotes host least chain f a) (hle : least ≤ least') :
    Denotes host least' chain f a :=
  fun limit hlimit => h limit (hle.trans hlimit)

/-- Within any limit a function does what its parts do, put together. -/
theorem exists_invoke_eq (host : Host m ν) (limit : Nat) (chain : Chain ν) :
    ∃ run, ∀ f, invoke host limit chain f = f.matcher host run := by
  cases limit with
  | zero => exact ⟨_, fun _ => rfl⟩
  | succ limit => exact ⟨_, fun _ => rfl⟩

theorem denotes_of_matcher (h : ∀ run, f.matcher host run = a) : Denotes host least chain f a := by
  intro limit _ chain' _
  obtain ⟨run, hrun⟩ := exists_invoke_eq host limit chain'
  exact (hrun f).trans (h run)

theorem Denotes.node {kind : Label} (h : Denotes host least chain f a) :
    Denotes host least chain (.node kind f) (host.nodeMatcher kind a) := by
  intro limit hlimit chain' hl
  obtain ⟨run, hrun⟩ := exists_invoke_eq host limit chain'
  rw [hrun, ← h limit hlimit chain' hl, hrun]
  rfl

/-- The function that a joint makes of two. -/
def joined : Joint → Function → Function → Function
  | .seq => .seq
  | .star => .star
  | .plus => .plus

theorem Denotes.joined (j : Joint) (hf : Denotes host least chain f a)
    (hg : Denotes host least chain g b) :
    Denotes host least chain (joined j f g) (j.matcher a b) := by
  intro limit hlimit chain' hl
  obtain ⟨run, hrun⟩ := exists_invoke_eq host limit chain'
  rw [hrun, ← hf limit hlimit chain' hl, ← hg limit hlimit chain' hl, hrun, hrun]
  cases j <;> rfl

theorem Binds.mono (h : Binds host least visible chain env) (hle : least ≤ least') :
    Binds host least' visible chain env := by
  intro x hx
  obtain ⟨f, a, hf, ha, hd⟩ := h x hx
  exact ⟨f, a, hf, ha, hd.mono hle⟩

theorem Binds.keeps (h : Binds host least visible chain env) (hk : chain.Keeps chain') :
    Binds host least visible chain' env := by
  intro x hx
  obtain ⟨f, a, hf, ha, hd⟩ := h x hx
  exact ⟨f, a, hk.lookUp hf, ha, hd.later hk.later⟩

/-- The visible names are those of the frames around a call that has none of them as its own. -/
theorem Binds.push (h : Binds host least visible chain env) {frame : Frame ν}
    (hf : ∀ x ∈ visible, x.name ∉ frame.locals) :
    Binds host least visible (frame :: chain) env := by
  intro x hx
  obtain ⟨f, a, hlook, ha, hd⟩ := h x hx
  exact ⟨f, a, (if_neg (hf x hx)).trans hlook, ha, hd.later (Chain.later_cons frame chain)⟩

/-- One more name is bound in the innermost call. -/
theorem Binds.bind {x : Local} (h : Binds host least visible chain env) (hx : x ∉ visible)
    (hl : x.name ∈ chain.locals) (hn : chain.vars.lookup x.name = none)
    (hd : Denotes host least (chain.assign x.name (.function f)) f a) :
    Binds host least (x :: visible) (chain.assign x.name (.function f)) (env.bind x a) := by
  intro y hy
  rcases List.mem_cons.mp hy with rfl | hy
  · exact ⟨f, a, Chain.lookUp_assign_self hl, if_pos rfl, hd⟩
  -- The other names are bound as before, since their texts differ from the new one.
  · have hne : y ≠ x := fun heq => hx (heq ▸ hy)
    have hname : y.name ≠ x.name := fun heq => hne (Local.name_injective heq)
    have hkeeps : chain.Keeps (chain.assign x.name (.function f)) :=
      Chain.keeps_assign fun _ _ => hn
    obtain ⟨g, b, hg, hb, hdg⟩ := h y hy
    exact ⟨g, b, (Chain.lookUp_assign_of_ne hname).trans hg, (if_neg hne).trans hb,
      hdg.later hkeeps.later⟩

end

end TreeGrammar.Script
