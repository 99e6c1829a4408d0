import Mathlib.Data.List.Basic
import TreeGrammar.Proofs.Evaluation
import TreeGrammar.Proofs.Scoping

/-!
The statements of a block do what the block means. A block is run in a frame of its own, in which
each name of the code is assigned once. The induction is on the block, for all frames around it in
which the names it sees are bound.
-/
namespace TreeGrammar.Code

/-- The names that a block binds, in functions inside it too. -/
def Block.bound (b : Block) : List Local :=
  b.items.filterMap Item.bound?

/-- How many functions a block defines, in functions inside it too. -/
def Block.definitions : Block → Nat
  | define _ body next => body.definitions + 1 + next.definitions
  | bind _ _ next | attempt _ next | insert _ next => next.definitions
  | ret _ | regroup _ _ _ | given _ => 0

theorem Expr.bound_items (e : Expr) : e.items.filterMap Item.bound? = [] := by
  induction e with
  | seq a b iha ihb | star a b iha ihb | plus a b iha ihb =>
    change (a.items ++ b.items).filterMap Item.bound? = []
    rw [List.filterMap_append, iha, ihb, List.append_nil]
  | node kind children ih => exact ih
  | _ => rfl

theorem Block.bound_define (name : Local) (body next : Block) :
    (define name body next).bound = name :: (body.bound ++ next.bound) := by
  simp [bound, items, Item.bound?]

theorem Block.bound_bind (name : Local) (value : Expr) (next : Block) :
    (bind name value next).bound = name :: next.bound := by
  simp [bound, items, Item.bound?, Expr.bound_items]

theorem Block.bound_attempt (matcher : Expr) (next : Block) :
    (attempt matcher next).bound = next.bound := by
  simp [bound, items, Expr.bound_items]

theorem Pattern.targets_phrase (pattern : Pattern) :
    pattern.phrase.targets = pattern.parts.map Part.name := by
  induction pattern with
  | unit => rfl
  | part part => rfl
  | pair first second ihf ihs =>
    simp [phrase, Script.Phrase.targets, Script.Phrase.targets.targetsOf, ihf, ihs, parts]

theorem Block.assigned_regroup (matcher : Expr) (pattern : Pattern) (result : Regrouped) :
    (regroup matcher pattern result).statements.assigned =
      "res" :: (pattern.phrase.targets ++ ["nodes"]) := by
  simp [statements, Script.Statements.assigned, Script.Phrase.targets,
    Script.Phrase.targets.targetsOf, nodes]

/-- The names of the code that the statements of a block assign are among those that it binds. -/
theorem Block.mem_bound_of_assigned {b : Block} {x : Local}
    (h : x.name ∈ b.statements.assigned) : x ∈ b.bound := by
  have hres : x.name ≠ "res" := Script.name_ne (by decide) x
  have hnodes : x.name ≠ "nodes" := Script.name_ne (by decide) x
  induction b with
  | define name body next ihb ihn =>
    rw [bound_define]
    rcases List.mem_cons.mp h with heq | h
    · exact List.mem_cons.mpr (.inl (Local.name_injective heq))
    · exact List.mem_cons_of_mem name (List.mem_append_right _ (ihn h))
  | bind name value next ih =>
    rw [bound_bind]
    rcases List.mem_cons.mp h with heq | h
    · exact List.mem_cons.mpr (.inl (Local.name_injective heq))
    · exact List.mem_cons_of_mem name (ih h)
  | attempt matcher next ih =>
    rw [bound_attempt]
    rcases List.mem_cons.mp h with heq | h
    · exact absurd heq hres
    · exact ih h
  | ret matcher => cases h
  | regroup matcher pattern result =>
    rw [assigned_regroup, Pattern.targets_phrase] at h
    rcases List.mem_cons.mp h with heq | h
    · exact absurd heq hres
    · rcases List.mem_append.mp h with hp | hn
      · obtain ⟨part, -, heq⟩ := List.mem_map.mp hp
        exact absurd heq.symm (Script.name_ne_part x part)
      · exact absurd (List.mem_singleton.mp hn) hnodes
  | insert code next ih =>
    have hnext : x ∈ next.bound := ih h
    exact hnext
  | given code => cases h

end TreeGrammar.Code

namespace TreeGrammar.Script

open Code

/-- A call with some nodes is at work in the innermost frame: the visible names are bound, no other
name of the code is assigned yet, and the words that are still to be assigned are local. -/
structure AtWork {m : Type → Type} [Monad m] [MonadExceptOf RunFault m] {ν : Type}
    (host : Host m ν) (least : Nat) (visible : List Local) (env : Env m ν) (nodes : List ν)
    (words : List String) (chain : Chain ν) : Prop where
  binds : Binds host least visible chain env
  input : chain.lookUp "nodes" = some (.input nodes)
  locals : ∀ word ∈ words, word ∈ chain.locals
  fresh : ∀ x : Local, x ∉ visible → chain.vars.lookup x.name = none

section
variable {m : Type → Type} [Monad m] [MonadExceptOf RunFault m] {ν : Type}
  {host : Host m ν} {least least' limit : Nat} {visible : List Local} {chain outer : Chain ν}
  {env : Env m ν} {nodes : List ν} {words words' : List String} {word : String} {d : Datum ν}

theorem Chain.vars_assign_of_mem (h : word ∈ chain.locals) :
    (chain.assign word d).vars = (word, d) :: chain.vars := by
  cases chain with
  | nil => cases h
  | cons frame outer => rfl

theorem AtWork.mono (h : AtWork host least visible env nodes words chain) (hle : least ≤ least')
    (hw : words' ⊆ words) : AtWork host least' visible env nodes words' chain :=
  ⟨h.binds.mono hle, h.input, fun word hword => h.locals word (hw hword), h.fresh⟩

/-- A word that is no name of the code is assigned. -/
theorem AtWork.assign (h : AtWork host least visible env nodes (word :: words) chain)
    (hw : word ≠ "nodes") (hx : ∀ x : Local, x.name ≠ word) :
    AtWork host least visible env nodes words (chain.assign word d) := by
  have hkeeps : chain.Keeps (chain.assign word d) :=
    Chain.keeps_assign fun x heq => absurd heq (hx x)
  refine ⟨h.binds.keeps hkeeps, ?_, fun other ho => ?_, fun x hv => ?_⟩
  · exact (Chain.lookUp_assign_of_ne hw.symm).trans h.input
  · rw [Chain.locals_assign]
    exact h.locals other (List.mem_cons_of_mem word ho)
  · rw [Chain.vars_assign_of_mem (h.locals word List.mem_cons_self), List.lookup_cons,
      beq_eq_false_iff_ne.mpr (hx x)]
    exact h.fresh x hv

/-- A name of the code that is not visible is not assigned yet. -/
theorem AtWork.keeps {x : Local} (h : AtWork host least visible env nodes words chain)
    (hx : x ∉ visible) : chain.Keeps (chain.assign x.name d) :=
  Chain.keeps_assign fun y hy => by
    rw [← hy, Local.name_injective hy]
    exact h.fresh x hx

/-- A name of the code is bound. -/
theorem AtWork.bind {x : Local} {f : Function} {a : Matcher m ν}
    (h : AtWork host least visible env nodes (x.name :: words) chain) (hx : x ∉ visible)
    (hd : Denotes host least (chain.assign x.name (.function f)) f a) :
    AtWork host least (x :: visible) (env.bind x a) nodes words
      (chain.assign x.name (.function f)) := by
  have hlocal := h.locals x.name List.mem_cons_self
  have hnodes : "nodes" ≠ x.name := (name_ne (by decide) x).symm
  refine ⟨h.binds.bind hx hlocal (h.fresh x hx) hd, ?_, fun word hw => ?_, fun y hy => ?_⟩
  · exact (Chain.lookUp_assign_of_ne hnodes).trans h.input
  · rw [Chain.locals_assign]
    exact h.locals word (List.mem_cons_of_mem _ hw)
  · obtain ⟨hne, hv⟩ := not_or.mp (List.mem_cons.not.mp hy)
    have hname : y.name ≠ x.name := fun heq => hne (Local.name_injective heq)
    rw [Chain.vars_assign_of_mem hlocal, List.lookup_cons, beq_eq_false_iff_ne.mpr hname]
    exact h.fresh y hv

/-- A call starts in a frame in which the nodes alone are bound. -/
theorem atWork_frame {body : Statements} (hb : Binds host least visible outer env)
    (hv : ∀ x ∈ visible, x.name ∉ body.assigned) (nodes : List ν) :
    AtWork host least visible env nodes body.assigned (body.frame nodes :: outer) := by
  have hnodes (x : Local) : x.name ≠ "nodes" := name_ne (by decide) x
  refine ⟨hb.push fun x hx => ?_, ?_, fun word hw => List.mem_cons_of_mem _ hw, fun x _ => ?_⟩
  · rw [Statements.frame, List.mem_cons, not_or]
    exact ⟨hnodes x, hv x hx⟩
  · have hmem : "nodes" ∈ (body.frame nodes).locals := List.mem_cons_self
    exact if_pos hmem
  · change [("nodes", Datum.input nodes)].lookup x.name = none
    rw [List.lookup_cons, beq_eq_false_iff_ne.mpr (hnodes x)]
    rfl

end

section
variable {m : Type → Type} [Monad m] [LawfulMonad m] [MonadExceptOf RunFault m] {ν : Type}
  {host : Host m ν} {least limit : Nat} {visible : List Local} {chain outer : Chain ν}
  {env : Env m ν} {nodes : List ν} {words : List String}

/-- The call of a matcher comes to what it finds. -/
theorem eval_callPhrase {e : Expr} (hr : e.Readable) (hn : e.names ⊆ visible)
    (hw : AtWork host least visible env nodes words chain) (hlimit : least ≤ limit) :
    e.callPhrase.eval (invoke host limit chain) chain =
      Datum.ofMatch <$> e.meaning host env nodes := by
  obtain ⟨f, heval, hd⟩ := amounts_meaning hr hn hw.binds
  have hnodes : (Phrase.name Code.nodes).eval (invoke host limit chain) chain =
      pure (.input nodes) := eval_variable rfl hw.input
  have hf := hd limit hlimit chain (Chain.keeps_refl chain).later
  rw [Expr.callPhrase, Phrase.eval, heval, pure_bind]
  simp only [evalAll, hnodes, pure_bind]
  rw [Datum.apply, hf, map_eq_pure_bind]

/-- Statements that end with what a matcher finds do what it does. -/
theorem run_eq_of_exec {call : Chain ν → Function → Matcher m ν} {body : Statements}
    {matcher : Matcher m ν}
    (h : ∀ nodes, body.exec call (body.frame nodes :: outer) =
      (fun found => Ending.returned (.ofMatch found)) <$> matcher nodes) :
    body.run call outer = matcher := by
  funext nodes
  have hfound (found : Match ν) :
      (orFault (Datum.ofMatch found).match? : m (Match ν)) = pure found := by
    cases found <;> rfl
  rw [Statements.run, h, map_eq_pure_bind, bind_assoc]
  simp only [pure_bind, hfound, bind_pure]

/-- What a matcher finds is assigned first. -/
theorem exec_call {e : Expr} {next : Statements} (hr : e.Readable) (hn : e.names ⊆ visible)
    (hw : AtWork host least visible env nodes words chain) (hlimit : least ≤ limit) :
    (Statements.assign (.name "res") e.callPhrase next).exec (invoke host limit) chain = (do
      let found ← e.meaning host env nodes
      next.exec (invoke host limit) (chain.assign "res" (.ofMatch found))) := by
  rw [Statements.exec, eval_callPhrase hr hn hw hlimit, map_eq_pure_bind, bind_assoc]
  simp only [pure_bind, unpack]

theorem exec_whether {call : Chain ν → Function → Matcher m ν} {d e : Datum ν} {isNone : Bool}
    {value : Phrase} {next : Statements} (h : chain.lookUp "res" = some d)
    (hd : d.isNothing = isNone)
    (hvalue : value.eval (call chain) chain = pure e) :
    (Statements.whether "res" isNone (.ret value .done) next).exec call chain =
      pure (.returned e) := by
  rw [Statements.exec, h]
  simp only [orFault, pure_bind, hd, if_true, Statements.exec, hvalue]

theorem exec_whether_not {call : Chain ν → Function → Matcher m ν} {d : Datum ν} {isNone : Bool}
    {body next : Statements} (h : chain.lookUp "res" = some d) (hd : d.isNothing ≠ isNone) :
    (Statements.whether "res" isNone body next).exec call chain = next.exec call chain := by
  rw [Statements.exec, h]
  simp only [orFault, pure_bind, hd, if_false]

/-- After a fault nothing more is done. -/
def FaultsStop (m : Type → Type) [Monad m] [MonadExceptOf RunFault m] : Prop :=
  ∀ (α β : Type) (fault : RunFault) (f : α → m β), (throw fault >>= f) = throw fault

/-- What is found is taken apart and returned anew, the nodes that are left being kept. -/
theorem exec_regroup (hm : FaultsStop m) {call : Chain ν → Function → Matcher m ν}
    {pattern : Pattern} {result : Regrouped} (hr : result.Readable) (hn : pattern.parts.Nodup)
    (hp : result.parts ⊆ pattern.parts) (around : Around)
    (hl : ∀ word ∈ pattern.phrase.targets ++ ["nodes"], word ∈ chain.locals) {v : Value}
    {rest : List ν} (h : chain.lookUp "res" = some (.result v rest)) :
    (Statements.assign (.tuple [pattern.phrase, .name Code.nodes]) (.name "res")
      (.ret (.tuple [result.phrase, .name Code.nodes]) .done)).exec call chain = (do
        let w ← regrouped around pattern result v
        pure (Ending.returned (.result w rest))) := by
  have hres : (Phrase.name "res").eval (call chain) chain = pure (.result v rest) :=
    eval_variable rfl h
  have hunpack : unpack chain (.result v rest) (.tuple [pattern.phrase, .name Code.nodes]) =
      (pattern.bind v).map fun parts =>
        (assignParts chain parts).assign "nodes" (.input rest) := by
    change (unpack chain (.value v) pattern.phrase).bind _ = _
    rw [unpack_pattern]
    cases pattern.bind v <;> rfl
  rw [Statements.exec, hres, pure_bind, hunpack, regrouped]
  cases hbind : pattern.bind v with
  -- Where the pattern does not fit there is a fault, after which nothing is returned.
  | none => exact (hm _ _ _ _).symm
  | some parts =>
    have hparts := parts_of_bind hbind
    have hlocals : ∀ entry ∈ parts, entry.1.name ∈ chain.locals := by
      intro entry he
      have hmem : entry.1 ∈ pattern.parts := hparts ▸ List.mem_map_of_mem he
      apply hl
      rw [Pattern.targets_phrase]
      exact List.mem_append_left _ (List.mem_map_of_mem hmem)
    let after := (assignParts chain parts).assign "nodes" (.input rest)
    have hnodes : after.lookUp "nodes" = some (.input rest) := by
      apply Chain.lookUp_assign_self
      rw [(keeps_assignParts chain parts).locals_eq]
      exact hl "nodes" (List.mem_append_right _ List.mem_cons_self)
    -- The parts that are used have their values still after `nodes` is assigned.
    have hknown : Known after parts result.parts := by
      intro part hpart
      have hmem := hp hpart
      rw [← hparts] at hmem hn
      obtain ⟨⟨part, u⟩, hentry, rfl⟩ := List.mem_map.mp hmem
      obtain ⟨c, hc, hinitial⟩ := head?_part part
      have hne : part.name ≠ "nodes" := by
        intro heq
        rw [heq] at hc
        cases hc
        rcases hinitial with h | h <;> cases h
      refine ⟨u, lookup_of_mem hn hentry, ?_⟩
      exact (Chain.lookUp_assign_of_ne hne).trans (lookUp_assignParts hn hlocals hentry)
    obtain ⟨w, hw, heval⟩ := eval_result (call after) around hr hknown
    have hinput : (Phrase.name Code.nodes).eval (call after) after = pure (.input rest) :=
      eval_variable rfl hnodes
    have htuple := eval_tuple₂ heval hinput rfl
    simp only [Option.map_some, Option.bind_some, hw]
    change (Statements.ret _ _).exec call after = _
    rw [Statements.exec, htuple, pure_bind, pure_bind]

omit [LawfulMonad m] in
/-- A function is defined in a call. It is the matcher that its body is in every later state of the
frames around it. -/
theorem AtWork.define {name : Local} {body : Block}
    (hw : AtWork host least visible env nodes (name.name :: words) chain) (hname : name ∉ visible)
    (hbody : ∀ limit outer, least + body.definitions ≤ limit → Binds host least visible outer env →
      body.statements.run (invoke host limit) outer = body.meaning host env) :
    AtWork host (least + body.definitions + 1) (name :: visible)
      (env.bind name (body.meaning host env)) nodes words
      (chain.assign name.name (.function (.closure chain.length body.statements))) := by
  have hle : least ≤ least + body.definitions + 1 := by omega
  refine (hw.mono hle (List.Subset.refl _)).bind hname ?_
  intro limit hlimit chain' hlater
  obtain ⟨limit, rfl⟩ : ∃ k, limit = k + 1 := ⟨limit - 1, by omega⟩
  -- The frames around the definition are those of its call, in their state by now.
  have hbinds := hw.binds.keeps ((hw.keeps hname).later.trans hlater).keeps_around
  exact hbody limit _ (by omega) hbinds

/-- Names that are not visible and differ from one more visible name. -/
theorem notMem_cons {names : List Local} {name : Local} (hnew : name ∉ names)
    (h : ∀ x ∈ names, x ∉ visible) : ∀ x ∈ names, x ∉ name :: visible := by
  intro x hx hmem
  rcases List.mem_cons.mp hmem with rfl | hmem
  · exact hnew hx
  · exact h x hx hmem

/-- The statements of a block, run in the frame of a call, return what the block means. -/
theorem exec_statements (hm : FaultsStop m) {b : Block} (hr : b.Readable)
    (hs : b.ScopedIn visible) (hn : b.bound.Nodup) (hv : ∀ x ∈ b.bound, x ∉ visible)
    (hw : AtWork host least visible env nodes b.statements.assigned chain)
    (hlimit : least + b.definitions ≤ limit) :
    b.statements.exec (invoke host limit) chain =
      (fun found => Ending.returned (.ofMatch found)) <$> b.meaning host env nodes := by
  induction b generalizing visible env least limit chain nodes with
  | define name body next ihb ihn =>
    rw [Block.bound_define] at hn hv
    obtain ⟨hnew, hrest⟩ := List.nodup_cons.mp hn
    obtain ⟨hbody, hnext, -⟩ := List.nodup_append.mp hrest
    obtain ⟨hname, hothers⟩ := List.forall_mem_cons.mp hv
    obtain ⟨hvbody, hvnext⟩ := List.forall_mem_append.mp hothers
    -- The body is run in a frame of its own, in which none of its names is bound yet.
    have hnow := hw.define hname fun limit outer hlimit hbinds => run_eq_of_exec fun nodes =>
      ihb hr.1 hs.1 hbody hvbody (atWork_frame hbinds (fun x hx hmem =>
        hvbody x (Block.mem_bound_of_assigned hmem) hx) nodes) hlimit
    have hdefinitions : (Block.define name body next).definitions =
      body.definitions + 1 + next.definitions := rfl
    have hnested : least + body.definitions + 1 + next.definitions ≤ limit := by omega
    have hvisible := notMem_cons (fun hmem => hnew (List.mem_append_right _ hmem)) hvnext
    exact ihn hr.2 hs.2 hnext hvisible hnow hnested
  | bind name value next ih =>
    rw [Block.bound_bind] at hn hv
    obtain ⟨hnew, hnext⟩ := List.nodup_cons.mp hn
    obtain ⟨hname, hvnext⟩ := List.forall_mem_cons.mp hv
    obtain ⟨f, heval, hf⟩ := amounts_meaning hr.1 hs.1 hw.binds
    have hnow := hw.bind hname (hf.later (hw.keeps hname).later)
    rw [Block.statements, Statements.exec, heval, pure_bind]
    exact ih hr.2 hs.2 hnext (notMem_cons hnew hvnext) hnow hlimit
  | attempt matcher next ih =>
    rw [Block.bound_attempt] at hn hv
    have hle : least ≤ limit := by omega
    rw [Block.statements, exec_call hr.1 hs.1 hw hle, Block.meaning, map_bind]
    congr 1
    funext found
    have hres : (chain.assign "res" (Datum.ofMatch found)).lookUp "res" =
        some (Datum.ofMatch found) := Chain.lookUp_assign_self (hw.locals "res" List.mem_cons_self)
    -- What is found is returned at once, else `res` is not read before it is assigned again.
    cases found with
    | some found =>
      have hfound : (Datum.ofMatch (some found)).isNothing = false := rfl
      rw [exec_whether hres hfound (eval_variable rfl hres), map_pure]
    | none =>
      have hfound : (Datum.ofMatch (none : Match ν)).isNothing ≠ false := by
        simp [Datum.ofMatch, Datum.isNothing]
      rw [exec_whether_not hres hfound]
      have hnow := hw.assign (d := .nothing) (by decide) (name_ne (by decide))
      exact ih hr.2 hs.2 hn hv hnow hlimit
  | ret matcher =>
    have hle : least ≤ limit := by omega
    rw [Block.statements, Statements.exec, eval_callPhrase hr hs hw hle, Block.meaning]
    simp only [map_eq_pure_bind, bind_assoc, pure_bind]
  | regroup matcher pattern result =>
    obtain ⟨hmatcher, hresult, hnodup, hsub⟩ := hr
    have hle : least ≤ limit := by omega
    rw [Block.statements, exec_call hmatcher hs hw hle, Block.meaning, map_bind]
    congr 1
    funext found
    have hres : (chain.assign "res" (Datum.ofMatch found)).lookUp "res" =
        some (Datum.ofMatch found) := Chain.lookUp_assign_self (hw.locals "res" List.mem_cons_self)
    cases found with
    | none =>
      have hfound : (Datum.ofMatch (none : Match ν)).isNothing = true := rfl
      rw [exec_whether hres hfound (eval_constant (d := .nothing) rfl), map_pure]
      rfl
    | some found =>
      obtain ⟨v, rest⟩ := found
      have hlocals : ∀ word ∈ pattern.phrase.targets ++ ["nodes"],
          word ∈ (chain.assign "res" (Datum.ofMatch (some (v, rest)))).locals := by
        intro word hword
        rw [Chain.locals_assign]
        apply hw.locals
        rw [Block.assigned_regroup]
        exact List.mem_cons_of_mem "res" hword
      have hfound : (Datum.ofMatch (some (v, rest))).isNothing ≠ true := by
        simp [Datum.ofMatch, Datum.isNothing]
      rw [exec_whether_not hres hfound,
        exec_regroup hm hresult hnodup hsub host.around hlocals hres]
      simp only [map_bind, map_pure]
      rfl
  | insert code next ih => exact hr.elim
  | given code => exact hr.elim

/-- The statements of a block as the body of a function are its matcher. -/
theorem run_statements (hm : FaultsStop m) {b : Block} (hr : b.Readable) (hs : b.ScopedIn visible)
    (hn : b.bound.Nodup) (hv : ∀ x ∈ b.bound, x ∉ visible)
    (hb : Binds host least visible outer env) (hlimit : least + b.definitions ≤ limit) :
    b.statements.run (invoke host limit) outer = b.meaning host env :=
  run_eq_of_exec fun nodes => exec_statements hm hr hs hn hv
    (atWork_frame hb (fun x hx hmem => hv x (Block.mem_bound_of_assigned hmem) hx) nodes) hlimit

end

end TreeGrammar.Script
