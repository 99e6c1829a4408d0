import Mathlib.Data.List.Basic
import TreeGrammar.Proofs.Building
import TreeGrammar.Proofs.Transcription

/-!
The text of code does what the code means. Statements run as the body of a function return what the
code finds; an expression after its definitions comes to a function that is the matcher of the code,
and it can be called and put into an application. All this holds for every layout, and whatever the
frames around are in which the names are bound that the code sees.
-/
namespace TreeGrammar.Code

open Script

/-- How many functions some definitions define, with those inside them. -/
def definitionsIn : List Def → Nat
  | [] => 0
  | .function _ body :: defs => body.definitions + 1 + definitionsIn defs
  | .given _ :: defs => definitionsIn defs

/-- The names that some definitions bind, with those inside them. -/
def boundIn (defs : List Def) : List Local :=
  (defs.flatMap Def.items).filterMap Item.bound?

theorem boundIn_function (name : Local) (body : Block) (defs : List Def) :
    boundIn (.function name body :: defs) = name :: (body.bound ++ boundIn defs) := by
  simp [boundIn, Def.items, Block.bound, Item.bound?]

theorem boundBy_subset (defs : List Def) : boundBy defs ⊆ boundIn defs := by
  induction defs with
  | nil => exact List.nil_subset _
  | cons d defs ih =>
    cases d with
    | function name body =>
      rw [boundIn_function, boundBy]
      refine List.append_subset.mpr ⟨fun x hx => ?_, fun x hx => ?_⟩
      · exact List.mem_cons_of_mem _ (List.mem_append_right _ (ih hx))
      · rw [List.mem_singleton.mp hx]
        exact List.mem_cons_self
    | given code => exact ih

theorem Term.bound_eq (t : Term) : (Fragment.term t).bound = boundIn t.defs := by
  rw [Fragment.bound, Fragment.items, Term.items, List.filterMap_append, Expr.bound_items,
    List.append_nil]
  rfl

theorem name_of_mem_assigned {next : Statements} {defs : List Def} {x : Local}
    (h : x.name ∈ (statementsAfter next defs).assigned) :
    x ∈ boundBy defs ∨ x.name ∈ next.assigned := by
  induction defs with
  | nil => exact .inr h
  | cons d defs ih =>
    cases d with
    | function name body =>
      rw [boundBy, List.mem_append, List.mem_singleton]
      rcases List.mem_cons.mp h with heq | h
      · exact .inl (.inr (Local.name_injective heq))
      · exact (ih h).imp_left .inl
    | given code => exact ih h

section
variable {m : Type → Type} [Monad m] [LawfulMonad m] [MonadExceptOf RunFault m] {ν : Type}
  {host : Host m ν} {least limit : Nat} {visible : List Local} {chain outer : Chain ν}
  {env : Env m ν} {nodes : List ν}

/-- After definitions their names are bound to the functions that they stand for. -/
theorem exec_definitions (hm : FaultsStop m) {defs : List Def} {next : Statements}
    (hr : ∀ d ∈ defs, d.Readable) (hs : DefsScopedIn visible defs) (hn : (boundIn defs).Nodup)
    (hv : ∀ x ∈ boundIn defs, x ∉ visible)
    (hw : AtWork host least visible env nodes (statementsAfter next defs).assigned chain) :
    ∃ chain', (∀ limit, (statementsAfter next defs).exec (invoke host limit) chain =
        next.exec (invoke host limit) chain') ∧
      AtWork host (least + definitionsIn defs) (boundBy defs ++ visible) (env.extend host defs)
        nodes next.assigned chain' := by
  induction defs generalizing least visible env chain with
  | nil => exact ⟨chain, fun _ => rfl, hw⟩
  | cons d defs ih =>
    obtain ⟨hfirst, hothers⟩ := List.forall_mem_cons.mp hr
    cases d with
    | function name body =>
      rw [boundIn_function] at hn hv
      obtain ⟨hnew, hrest⟩ := List.nodup_cons.mp hn
      obtain ⟨hbody, hdefs, -⟩ := List.nodup_append.mp hrest
      obtain ⟨hname, hinner⟩ := List.forall_mem_cons.mp hv
      obtain ⟨hvbody, hvdefs⟩ := List.forall_mem_append.mp hinner
      have hnow := hw.define hname fun limit outer hlimit hbinds =>
        run_statements hm hfirst hs.1 hbody hvbody hbinds hlimit
      have hvisible := notMem_cons (fun hmem => hnew (List.mem_append_right _ hmem)) hvdefs
      obtain ⟨chain', hexec, hdone⟩ := ih hothers hs.2 hdefs hvisible hnow
      have hbound : boundBy (.function name body :: defs) ++ visible =
          boundBy defs ++ name :: visible := by
        rw [boundBy, List.append_assoc, List.singleton_append]
      have hcount : least + definitionsIn (.function name body :: defs) =
          least + body.definitions + 1 + definitionsIn defs := by
        rw [definitionsIn]
        omega
      rw [hbound, hcount]
      exact ⟨chain', hexec, hdone⟩
    | given code => exact hfirst.elim

variable {n : Nat} {code : Fragment} {t : Term} {matcher : Matcher m ν}

/-- In a call that starts with the definitions of a term these are bound for what follows. -/
theorem exec_definitions_frame (hm : FaultsStop m) (hb : Binds host least visible outer env)
    (hs : Sound visible n (.term t)) {next : Statements}
    (hnext : ∀ x : Local, x.name ∉ next.assigned) (nodes : List ν) :
    ∃ chain, (∀ limit, (statementsAfter next t.defs).exec (invoke host limit)
        ((statementsAfter next t.defs).frame nodes :: outer) =
          next.exec (invoke host limit) chain) ∧
      AtWork host (least + definitionsIn t.defs) (boundBy t.defs ++ visible)
        (env.extend host t.defs) nodes next.assigned chain := by
  have hapart : ∀ x ∈ boundIn t.defs, x ∉ visible := by
    rw [← Term.bound_eq]
    exact hs.apart
  have hnodup : (boundIn t.defs).Nodup := by
    rw [← Term.bound_eq]
    exact hs.nodup
  have hreadable := ((Fragment.readable_term t).mp hs.readable).1
  have hscoped := ((Fragment.scopedIn_term t).mp hs.uses).1
  refine exec_definitions hm hreadable hscoped hnodup hapart (atWork_frame hb ?_ nodes)
  -- A function around must not lose a visible name to a local one.
  intro x hx hmem
  rcases name_of_mem_assigned hmem with hbound | hword
  · exact hapart x (boundBy_subset t.defs hbound) hx
  · exact hnext x hword

/-- Text of definitions and then of an expression comes to a function that is the matcher, in every
call. -/
def ComesTo (host : Host m ν) (least : Nat) (outer : Chain ν) (defs expr : List Piece)
    (matcher : Matcher m ν) : Prop :=
  ∀ nodes, ∃ chain f, (∀ limit, evalText host limit outer defs expr nodes =
    pure (chain, .function f)) ∧ Denotes host least chain f matcher

/-- In whatever layout, the text of a term is the matcher: as an expression, as the value that a
function returns for its nodes, and where the result of a call is kept. What is written is one of
the layouts. -/
structure Term.Emits (host : Host m ν) (least : Nat) (outer : Chain ν) (t : Term)
    (matcher : Matcher m ν) : Prop where
  written : DefsLaidOut t.defs (defPieces t.defs) ∧ t.expr.LaidOut t.expr.pieces ∧
    ∀ start, CallLaidOut start t.expr (call start t.expr.pieces Code.nodes)
  evaluated : ∀ defs expr, DefsLaidOut t.defs defs → t.expr.LaidOut expr →
    ComesTo host (least + definitionsIn t.defs) outer defs expr matcher
  returned : ∀ limit, least + definitionsIn t.defs ≤ limit → ∀ defs call,
    DefsLaidOut t.defs defs → CallLaidOut "return " t.expr call →
    runText host limit outer (defs ++ call) = matcher
  kept : ∀ limit, least + definitionsIn t.defs ≤ limit → ∀ defs call,
    DefsLaidOut t.defs defs → CallLaidOut "res = " t.expr call →
    runTextFor host limit outer "res" (defs ++ call) = matcher

theorem execText_eq {pieces : List Piece} {body : Statements}
    (h : read pieces = some body) (nodes : List ν) : execText host limit outer pieces nodes =
      body.exec (invoke host limit) (body.frame nodes :: outer) := by
  rw [execText, h]
  exact pure_bind _ _

theorem runText_eq {pieces : List Piece} {body : Statements} (h : read pieces = some body) :
    runText host limit outer pieces = body.run (invoke host limit) outer := by
  funext nodes
  rw [runText, execText_eq h]
  rfl

theorem Term.emits (hm : FaultsStop m) (hb : Binds host least visible outer env)
    (hs : Sound visible n (.term t)) (ht : t.meaning host env = matcher) :
    t.Emits host least outer matcher := by
  obtain ⟨hdefs, hexpr⟩ := (Fragment.readable_term t).mp hs.readable
  have hnames := ((Fragment.scopedIn_term t).mp hs.uses).2
  have hmeaning : t.expr.meaning host (env.extend host t.defs) = matcher := ht
  refine ⟨⟨defsLaidOut_defPieces t.defs, t.expr.laidOut_pieces, fun start =>
    callLaidOut_call start t.expr⟩, fun defs expr hd he nodes => ?_,
    fun limit hlimit defs call hd hc => ?_,
    fun limit hlimit defs call hd hc => ?_⟩
  · -- The definitions alone are statements that return nothing.
    have hread : read (defs ++ []) = some (statementsAfter .done t.defs) :=
      (readsAs_defs hdefs hd readsAs_nil).read
    rw [List.append_nil] at hread
    have hnothing (x : Local) : x.name ∉ Statements.done.assigned := fun hx => by cases hx
    obtain ⟨chain, hexec, hw⟩ := exec_definitions_frame hm hb hs hnothing nodes
    obtain ⟨f, heval, hf⟩ := amounts_meaning hexpr hnames hw.binds
    refine ⟨chain, f, fun limit => ?_, hmeaning ▸ hf⟩
    rw [evalText, execText_eq hread, hexec, Statements.exec, pure_bind, Expr.readPhrase hexpr he]
    simp only [orFault, pure_bind, heval]
  -- A call that is returned, and then one whose result is kept.
  · have hread : read (defs ++ call) =
        some (statementsAfter (.ret t.expr.callPhrase .done) t.defs) :=
      (readsAs_defs hdefs hd (Block.readsAs (b := .ret t.expr) hexpr hc)).read
    rw [runText_eq hread]
    apply run_eq_of_exec
    intro nodes
    have hnothing (x : Local) : x.name ∉ (Statements.ret t.expr.callPhrase .done).assigned :=
      fun hx => by cases hx
    obtain ⟨chain, hexec, hw⟩ := exec_definitions_frame hm hb hs hnothing nodes
    rw [hexec, Statements.exec, eval_callPhrase hexpr hnames hw hlimit, hmeaning]
    simp only [map_eq_pure_bind, bind_assoc, pure_bind]
  · have hread : read (defs ++ call) =
        some (statementsAfter (.assign (.name "res") t.expr.callPhrase .done) t.defs) := by
      have hall := readsAs_defs hdefs hd (readsAs_call hexpr hc readsAs_nil)
      rw [List.append_nil] at hall
      exact hall.read
    have hres (x : Local) :
        x.name ∉ (Statements.assign (.name "res") t.expr.callPhrase .done).assigned :=
      fun hx => name_ne (by decide) x (List.mem_singleton.mp hx)
    funext nodes
    obtain ⟨chain, hexec, hw⟩ := exec_definitions_frame hm hb hs hres nodes
    have hlookUp (found : Match ν) : (chain.assign "res" (Datum.ofMatch found)).lookUp "res" =
        some (Datum.ofMatch found) := Chain.lookUp_assign_self (hw.locals "res" List.mem_cons_self)
    have hfound (found : Match ν) :
        (orFault (((chain.assign "res" (Datum.ofMatch found)).lookUp "res").bind Datum.match?) :
          m (Match ν)) = pure found := by
      rw [hlookUp]
      cases found <;> rfl
    rw [runTextFor, execText_eq hread, hexec, exec_call hexpr hnames hw hlimit, hmeaning,
      bind_assoc]
    simp only [Statements.exec, pure_bind, hfound, bind_pure]

/-- The text of some code is its matcher: the statements it is as the body of a function, in
whatever layout, and the term that it is as an expression. -/
structure Fragment.Emits (host : Host m ν) (least : Nat) (outer : Chain ν) (n : Nat)
    (code : Fragment) (matcher : Matcher m ν) : Prop where
  written : code.toBlock.LaidOut code.toBlock.pieces
  asBody : ∀ limit, least + code.toBlock.definitions ≤ limit → ∀ pieces,
    code.toBlock.LaidOut pieces → runText host limit outer pieces = matcher
  asFun : ∃ t l, Makes code.toTerm n t l ∧ t.Emits host least outer matcher

theorem Built.emits (hm : FaultsStop m) (hb : Binds host least visible outer env)
    (h : Built visible n code) : code.Emits host least outer n (code.meaning host env) := by
  refine ⟨code.toBlock.laidOut_pieces, fun limit hlimit pieces hl => ?_, ?_⟩
  · have hs := h.asBody.sound
    rw [runText_eq (Block.readsAs hs.readable hl).read]
    exact run_statements hm hs.readable hs.uses hs.nodup hs.apart hb hlimit
  · obtain ⟨t, l, hmake, hterm⟩ := exists_termed code n
    exact ⟨t, l, hmake, Term.emits hm hb (h.asFun hmake).sound (hterm.meaning host env)⟩

/-- Two terms in an application are joined by its combinator. -/
theorem Built.emits_join (hm : FaultsStop m) (hb : Binds host least visible outer env) {a b : Term}
    (ha : Built visible n (.term a)) (hb' : Built visible n (.term b))
    (hab : ∀ x ∈ (Fragment.term a).bound, x ∉ (Fragment.term b).bound) (j : Joint) :
    (Term.mk (j.expr a.expr b.expr) (a.defs ++ b.defs)).Emits host least outer
      (j.matcher (a.meaning host env) (b.meaning host env)) := by
  refine Term.emits hm hb (ha.sound.joined j hb'.sound hab) ?_
  have hbound (t : Term) (ht : Built visible n (.term t)) : ∀ x ∈ boundBy t.defs, x ∉ visible :=
    fun x hx => ht.sound.apart x (t.bound_eq ▸ boundBy_subset t.defs hx)
  -- Neither term sees the definitions of the other one.
  have happart : ∀ x ∈ boundBy a.defs, x ∉ boundBy b.defs := by
    intro x hx hmem
    refine hab x ?_ ?_
    · rw [Term.bound_eq]
      exact boundBy_subset a.defs hx
    · rw [Term.bound_eq]
      exact boundBy_subset b.defs hmem
  have hsa := (Fragment.scopedIn_term a).mp ha.sound.uses
  have hsb := (Fragment.scopedIn_term b).mp hb'.sound.uses
  obtain ⟨hma, hmb⟩ := Term.meaning_beside host env hsa hsb (hbound a ha) (hbound b hb') happart
  rw [Term.meaning, j.joins.meaning, hma, hmb]

/-- A matcher for the children of a node is put into the matcher of the node. -/
theorem Built.emits_node (hm : FaultsStop m) (hb : Binds host least visible outer env) {a : Term}
    (ha : Built visible n (.term a)) {kind : Label} (hk : kind.IsText) :
    Term.joined (.node kind a.expr) a.defs = .ok ⟨.node kind a.expr, a.defs⟩ ∧
      (Term.mk (.node kind a.expr) a.defs).Emits host least outer
        (host.nodeMatcher kind (a.meaning host env)) := by
  have hclosed := Expr.closed_of_readable ((Fragment.readable_term a).mp ha.sound.readable).2
  have hjoined : Term.joined (.node kind a.expr) a.defs = .ok ⟨.node kind a.expr, a.defs⟩ := by
    have hfault : (Expr.node kind a.expr).fault? = none := applicationFault?_pair rfl hclosed
    rw [Term.joined, hfault]
  exact ⟨hjoined, Term.emits hm hb (ha.node hk hjoined).sound rfl⟩

/-- Emitted text means the matchers that code stands for, whatever the layout. Take any frames in
which the visible names are bound to their matchers, and any code that is built there. Its
statements as the body of a function return what the code finds in the nodes. Made an expression, it
comes after its definitions to a function that is the matcher of the code, and which can be called
in a statement. An application can always be made of two such expressions, and it is the combinator
of its name applied to their matchers, the definitions of both standing before it; so is the matcher
of a node. -/
theorem emitted_text_means_matchers (hm : FaultsStop m)
    (hb : Binds host least visible outer env) :
    (∀ n code, Built visible n code → code.Emits host least outer n (code.meaning host env)) ∧
    (∀ n a b, Built visible n (.term a) → Built visible n (.term b) →
      (∀ x ∈ (Fragment.term a).bound, x ∉ (Fragment.term b).bound) → ∀ j : Joint,
        Term.join j.expr a b = .ok ⟨j.expr a.expr b.expr, a.defs ++ b.defs⟩ ∧
        (j.expr a.expr b.expr).pieces = application j.func [a.expr.pieces, b.expr.pieces] ∧
        (∀ pieces, (j.expr a.expr b.expr).LaidOut pieces ↔ ∃ first second,
          a.expr.LaidOut first ∧ b.expr.LaidOut second ∧ Applied j.func [first, second] pieces) ∧
        (Term.mk (j.expr a.expr b.expr) (a.defs ++ b.defs)).Emits host least outer
          (j.matcher (a.meaning host env) (b.meaning host env))) ∧
    ∀ n a kind, Built visible n (.term a) → kind.IsText →
      Term.joined (.node kind a.expr) a.defs = .ok ⟨.node kind a.expr, a.defs⟩ ∧
      (Term.mk (.node kind a.expr) a.defs).Emits host least outer
        (host.nodeMatcher kind (a.meaning host env)) := by
  refine ⟨fun n code h => h.emits hm hb, fun n a b ha hb' hab j =>
    ⟨?_, ?_, fun _ => j.laidOut_expr, ?_⟩, fun n a kind ha hk => ha.emits_node hm hb hk⟩
  · have hclosed (t : Term) (ht : Built visible n (.term t)) : t.expr.Closed :=
      Expr.closed_of_readable ((Fragment.readable_term t).mp ht.sound.readable).2
    exact Term.joined_of_closed (hclosed a ha) (hclosed b hb')
  · cases j <;> rfl
  · exact ha.emits_join hm hb hb' hab j

end

/-- Words as nodes, each of which is of its own kind. -/
def wordHost : Host (Except RunFault) String where
  kind word := .str word
  leaf word := .ok (.text word)
  children _ := []
  rule name _ := .error (.noSuchRule name)
  given _ _ := .error .noMeaning
  around _ _ _ := none

/-- A sign that may be missing. -/
def signBody : Body :=
  .choice [.literal (.str "-"), .blank]

theorem sign_text : ∃ k l, Makes (compile (some .atEnd) signBody) 0 k l ∧
    k.code.Emits wordHost 0 [] l (k.code.meaning wordHost .empty) := by
  obtain ⟨k, l, hk⟩ : ∃ k l, Makes (compile (some .atEnd) signBody) 0 k l := ⟨_, _, rfl⟩
  have hend : Built [] 0 (Continuation.orEnd (some .atEnd)).code :=
    .expr (fun x hx => by cases hx) trivial (List.nil_subset _)
  have hread : ∀ x ∈ signBody.items, x.Readable := by
    have hitems : signBody.items = [.leaf (.str "-")] := by
      simp [signBody, Body.items, Body.itemsOf]
    rw [hitems]
    exact List.forall_mem_singleton.mpr ⟨"-", rfl⟩
  have hnone : Binds wordHost 0 [] [] .empty := fun x hx => by cases hx
  have hstop : FaultsStop (Except RunFault) := fun _ _ _ _ => rfl
  exact ⟨k, l, hk, (emitted_text_means_matchers hstop hnone).1 l k.code (hend.compile hread hk)⟩

end TreeGrammar.Code
