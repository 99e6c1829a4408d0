import TreeGrammar.Proofs.Growth

/-!
The text of a caller in compiled code. What a caller gives for a continuation stands in the code
just as it stood in the continuation, however many alternatives share it: what follows a choice is
bound to a name, and the alternatives hold that name. The induction is on the body.
-/
namespace TreeGrammar.Code

open Continuation (prependOne prependWith prependNext flattenHead flatten regroup orEnd)

/-- The texts of a caller in code, in the order of the code. -/
def Expr.texts : Expr → List (List Piece)
  | given code => [code]
  | seq element tail | star element tail | plus element tail => element.texts ++ tail.texts
  | node _ children => children.texts
  | success | finish | ref _ | rule _ | leaf _ => []

def Block.texts : Block → List (List Piece)
  | define _ body next => body.texts ++ next.texts
  | bind _ value next => value.texts ++ next.texts
  | attempt matcher next => matcher.texts ++ next.texts
  | ret matcher => matcher.texts
  | regroup matcher _ _ => matcher.texts
  | insert code next => code :: next.texts
  | given code => [code]

def Def.texts : Def → List (List Piece)
  | function _ body => body.texts
  | given code => [code]

def Term.texts (t : Term) : List (List Piece) :=
  t.defs.flatMap Def.texts ++ t.expr.texts

def Fragment.texts : Fragment → List (List Piece)
  | term t => t.texts
  | block b => b.texts

theorem Block.texts_after (defs : List Def) (b : Block) :
    (b.after defs).texts = defs.flatMap Def.texts ++ b.texts := by
  induction defs with
  | nil => rfl
  | cons d defs ih =>
    cases d with
    | function name body =>
      change body.texts ++ (b.after defs).texts = _
      rw [ih, List.flatMap_cons, List.append_assoc]
      rfl
    | given code =>
      change code :: (b.after defs).texts = _
      rw [ih, List.flatMap_cons]
      rfl

theorem Fragment.texts_toBlock (code : Fragment) : code.toBlock.texts = code.texts := by
  cases code with
  | term t => exact Block.texts_after t.defs (.ret t.expr)
  | block b => rfl

section
variable {next : Option Continuation} {k : Continuation} {n l : Nat}

theorem texts_toTerm {code : Fragment} {t : Term} (h : Makes code.toTerm n t l) :
    t.texts = code.texts := by
  cases code with
  | term t' =>
    obtain ⟨rfl, -⟩ := makes_pure_inv h
    rfl
  | block b =>
    obtain ⟨rfl, -⟩ := h.unique (makes_bind (makes_freshId n) (makes_pure _ _))
    simp [Term.texts, Def.texts, Expr.texts, Fragment.texts]

theorem Joint.texts_expr (j : Joint) (a b : Expr) : (j.expr a b).texts = a.texts ++ b.texts := by
  cases j <;> rfl

/-- A matcher without texts adds none to the continuation that it is put in front of. -/
theorem texts_prependWith (j : Joint) {element : Term} (he : element.texts = [])
    (h : Makes (prependWith j.expr element next) n k l) :
    k.code.texts = (orEnd next).code.texts := by
  obtain ⟨t, hterm, hcode⟩ := makes_prependWith_inv h
  obtain ⟨hdefs, hexpr⟩ := List.append_eq_nil_iff.mp he
  rw [hcode]
  calc (Fragment.term ⟨j.expr element.expr t.expr, element.defs ++ t.defs⟩).texts
      = (element.defs ++ t.defs).flatMap Def.texts ++ (element.expr.texts ++ t.expr.texts) := by
        rw [← j.texts_expr]
        rfl
    _ = t.texts := by
        rw [List.flatMap_append, hdefs, hexpr]
        rfl
    _ = (orEnd next).code.texts := texts_toTerm hterm

theorem texts_regroup {count : Int} {whole : Continuation} {wrap : Wrap} {code : Fragment}
    (h : Makes (regroup count whole wrap) n code l) : code.texts = whole.code.texts := by
  obtain ⟨pattern, k, -, hrest⟩ := makes_bind_inv h
  obtain ⟨result, k', -, hcode⟩ := makes_bind_inv hrest
  split at hcode
  · obtain ⟨rfl, -⟩ := makes_pure_inv hcode
    rfl
  · obtain ⟨t, m, hterm, hpure⟩ := makes_bind_inv hcode
    obtain ⟨rfl, -⟩ := makes_pure_inv hpure
    exact (Block.texts_after t.defs _).trans (texts_toTerm hterm)

theorem texts_flatten {whole : Continuation} {wrap : Wrap} {code : Fragment}
    (h : Makes (flatten (some whole) wrap) n code l) : code.texts = whole.code.texts := by
  obtain ⟨next', k, hflat, hpure⟩ := makes_bind_inv h
  obtain ⟨rfl, -⟩ := makes_pure_inv hpure
  rcases makes_flattenHead_inv hflat with ⟨-, rfl, -⟩ | ⟨-, whole', flat, hw, rfl, -, hregroup⟩
  · rfl
  · obtain rfl := Option.some.inj hw
    exact texts_regroup hregroup

end

/-- Compiling the body in front of a continuation keeps its texts and adds none. -/
def KeepsTexts (body : Body) : Prop :=
  ∀ next n k l, Makes (compile next body) n k l → k.code.texts = (orEnd next).code.texts

theorem keepsTexts_leaf {body : Body} {e : Expr} (he : e.texts = [])
    (h : ∀ next, compile next body = prependNext (.ofExpr e) next) : KeepsTexts body := by
  intro next n k l hm
  rw [h] at hm
  have helement : (Term.ofExpr e).texts = [] := he
  exact texts_prependWith .seq helement hm

theorem keepsTexts_repetition (j : Joint) {body whole : Body} (hb : KeepsTexts body)
    (h : ∀ next, compile next whole = do
      let element ← (← flatten (← compile none body) .plain).toTerm
      prependWith j.expr element next) : KeepsTexts whole := by
  intro next n k l hm
  rw [h] at hm
  obtain ⟨inner, l₁, hinner, h₁⟩ := makes_bind_inv hm
  obtain ⟨code, l₂, hflatten, h₂⟩ := makes_bind_inv h₁
  obtain ⟨element, l₃, hterm, h₃⟩ := makes_bind_inv h₂
  -- The element starts at the end of a sequence, where no caller has given a text.
  have helement : element.texts = [] :=
    calc element.texts = code.texts := texts_toTerm hterm
      _ = inner.code.texts := texts_flatten hflatten
      _ = (orEnd none).code.texts := hb none n inner l₁ hinner
      _ = [] := rfl
  exact texts_prependWith j helement h₃

section
variable {bodies : List Body} {n l : Nat}

theorem texts_compileAll (h : ∀ b ∈ bodies, KeepsTexts b) {next k : Option Continuation}
    (hm : Makes (compileAll next bodies) n k l) :
    (orEnd k).code.texts = (orEnd next).code.texts := by
  induction bodies generalizing k l with
  | nil =>
    rw [compileAll] at hm
    obtain ⟨rfl, -⟩ := makes_pure_inv hm
    rfl
  | cons body rest ih =>
    rw [compileAll] at hm
    obtain ⟨k₁, l₁, hrest, hm₁⟩ := makes_bind_inv hm
    obtain ⟨k₂, l₂, hbody, hm₂⟩ := makes_bind_inv hm₁
    obtain ⟨rfl, -⟩ := makes_pure_inv hm₂
    have hfirst := h body List.mem_cons_self k₁ l₁ k₂ l₂ hbody
    exact hfirst.trans (ih (fun b hb => h b (List.mem_cons_of_mem body hb)) hrest)

theorem texts_compileGroup {wrap : Wrap} (h : ∀ b ∈ bodies, KeepsTexts b)
    {next : Option Continuation} {k : Continuation}
    (hm : Makes (compileGroup wrap next bodies) n k l) :
    k.code.texts = (orEnd next).code.texts := by
  obtain ⟨whole, l', hall, -, hregroup⟩ := makes_group_inv hm
  exact (texts_regroup hregroup).trans (texts_compileAll h hall)

/-- Alternatives in front of a name hold no texts. -/
theorem texts_compileCases (h : ∀ b ∈ bodies, ∀ e ∈ b.elements, KeepsTexts e) {id index : Nat}
    {next : Continuation} (hn : next.code.texts = []) {counts : Option (Int × Int)} {cases : Cases}
    (hm : Makes (compileCases id index next counts bodies) n cases l) :
    ∀ a ∈ cases.1, a.2.texts = [] := by
  induction bodies generalizing index n l counts cases with
  | nil =>
    rw [compileCases] at hm
    obtain ⟨rfl, -⟩ := makes_pure_inv hm
    exact fun a ha => by cases ha
  | cons body rest ih =>
    rw [compileCases_cons] at hm
    obtain ⟨case, l₁, hcase, h₁⟩ := makes_bind_inv hm
    obtain ⟨agreed, l₂, hagree, h₂⟩ := makes_bind_inv h₁
    obtain ⟨others, l₃, hothers, h₃⟩ := makes_bind_inv h₂
    obtain ⟨rfl, -⟩ := makes_pure_inv h₃
    have hfirst : case.code.toBlock.texts = [] := by
      rw [Fragment.texts_toBlock, texts_compileGroup (h body List.mem_cons_self) hcase]
      exact hn
    exact List.forall_mem_cons.mpr
      ⟨hfirst, ih (fun b hb => h b (List.mem_cons_of_mem body hb)) hothers⟩

theorem texts_firstOf {matchers : List Expr} {b : Block} (h : Block.firstOf matchers = .ok b) :
    b.texts = matchers.flatMap Expr.texts := by
  induction matchers generalizing b with
  | nil => cases h
  | cons e rest ih =>
    cases rest with
    | nil =>
      obtain rfl := Except.ok.inj h
      exact (List.append_nil _).symm
    | cons e' rest =>
      change (Block.firstOf (e' :: rest) >>= fun b' => pure (Block.attempt e b')) = _ at h
      rcases hrest : Block.firstOf (e' :: rest) with _ | b'
      · rw [hrest] at h
        cases h
      · rw [hrest] at h
        obtain rfl := Except.ok.inj h
        rw [Block.texts, ih hrest]
        rfl

theorem texts_alternatives {alternatives : List Alternative} {b : Block}
    (h : Block.alternatives alternatives = .ok b) (ha : ∀ a ∈ alternatives, a.2.texts = []) :
    b.texts = [] := by
  rw [Block.alternatives] at h
  rcases hf : Block.firstOf (alternatives.map fun a => .ref a.1) with _ | tries
  · rw [hf] at h
    cases h
  rw [hf] at h
  obtain rfl := Except.ok.inj h
  have htries : tries.texts = [] := by
    rw [texts_firstOf hf, List.flatMap_map, List.flatMap_eq_nil_iff]
    exact fun a _ => rfl
  clear hf
  induction alternatives with
  | nil => exact htries
  | cons a rest ih =>
    obtain ⟨hfirst, hrest⟩ := List.forall_mem_cons.mp ha
    rw [List.foldr_cons, Block.texts, hfirst, ih hrest rfl]
    rfl

theorem keepsTexts_choice (h : ∀ b ∈ bodies, ∀ e ∈ b.elements, KeepsTexts e) :
    KeepsTexts (.choice bodies) := by
  intro next n k l hm
  rw [compile, choose] at hm
  split at hm
  · cases hm
  obtain ⟨id, l₁, hid, h₁⟩ := makes_bind_inv hm
  obtain ⟨tail, l₂, hterm, h₂⟩ := makes_bind_inv h₁
  obtain ⟨cases, l₃, hcases, h₃⟩ := makes_bind_inv h₂
  obtain ⟨tries, l₄, hlift, h₄⟩ := makes_bind_inv h₃
  obtain ⟨htries, -⟩ := makes_lift_inv hlift
  split at h₄
  · obtain ⟨rfl, -⟩ := makes_pure_inv h₄
    -- What follows stands in the binding of its name, and the alternatives only use that name.
    have hshared := texts_alternatives htries (texts_compileCases h rfl hcases)
    calc (Block.bindTerm (.tail id) tail tries).texts
        = tail.defs.flatMap Def.texts ++ (tail.expr.texts ++ tries.texts) :=
          Block.texts_after tail.defs _
      _ = tail.texts := by
          rw [hshared, List.append_nil]
          rfl
      _ = (orEnd next).code.texts := texts_toTerm hterm
  · cases h₄

theorem keepsTexts_seq (h : ∀ b ∈ bodies, KeepsTexts b) : KeepsTexts (.seq bodies) := by
  intro next n k l hm
  rw [compile] at hm
  exact texts_compileGroup h hm

end

/-- Every body keeps the texts of what follows. -/
theorem keepsTexts (body : Body) : KeepsTexts body := by
  induction body using Body.induction_on_elements with
  | symbol name => exact keepsTexts_leaf (e := .rule name) rfl fun _ => by rw [compile]
  | literal text => exact keepsTexts_leaf (e := .leaf text) rfl fun _ => by rw [compile]
  | pattern text => exact keepsTexts_leaf (e := .leaf text) rfl fun _ => by rw [compile]
  | blank => exact keepsTexts_leaf (e := .success) rfl fun _ => by rw [compile]
  | star body ih => exact keepsTexts_repetition .star ih fun _ => by rw [compile]; rfl
  | plus body ih => exact keepsTexts_repetition .plus ih fun _ => by rw [compile]; rfl
  | choice bodies ih => exact keepsTexts_choice ih
  | seq bodies ih => exact keepsTexts_seq ih

end TreeGrammar.Code
