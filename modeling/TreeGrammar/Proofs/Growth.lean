import Mathlib.Data.List.Basic
import TreeGrammar.Proofs.Contents
import TreeGrammar.Proofs.Methods
import TreeGrammar.Proofs.Readable
import TreeGrammar.Proofs.Scoping

/-!
What compiling adds to code. A body in front of a continuation holds what stands in the
continuation, once, what the body asks for, and names with new numbers, each of which has a purpose.
It uses no name that is not visible where the continuation stands. The induction is on the body, for
all continuations at once.
-/
namespace TreeGrammar.Code

open Continuation (prependOne prependWith prependNext flattenHead flatten regroup orEnd)

section
variable {α : Type}

theorem makes_pure_inv {a b : α} {n l : Nat} (h : Makes (pure a) n b l) : b = a ∧ l = n :=
  h.unique (makes_pure a n)

theorem makes_lift_inv {x : Except CodeError α} {a : α} {n l : Nat} (h : Makes (liftM x) n a l) :
    x = .ok a ∧ l = n := by
  cases x with
  | error e => cases h
  | ok b =>
    obtain ⟨rfl, rfl⟩ := h.unique (makes_lift rfl n)
    exact ⟨rfl, rfl⟩

theorem makes_freshId_inv {id n l : Nat} (h : Makes freshId n id l) : id = n + 1 ∧ l = n + 1 :=
  h.unique (makes_freshId n)

end

/-- The new items are the old ones, those that are added, and the bindings of the names with the
numbers after `n` up to `l`. The choices among the purposes of these have the given counts of
alternatives. -/
def Grows (n : Nat) (old added : List Item) (choices : List Nat) (new : List Item) (l : Nat) :
    Prop :=
  ∃ purposes : List Purpose, l = n + purposes.length ∧
    (∀ x, new.count x = old.count x + added.count x +
      (itemsAfter n purposes).count x) ∧
    ∀ c, (purposes.filterMap Purpose.alternatives?).count c = choices.count c

section
variable {n k l : Nat} {old added added' middle new : List Item} {cs cs' : List Nat}

theorem Grows.refl (n : Nat) (items : List Item) : Grows n items [] [] items n :=
  ⟨[], rfl, by simp [itemsAfter], by simp⟩

theorem Grows.trans (h : Grows n old added cs middle k) (h' : Grows k middle added' cs' new l) :
    Grows n old (added' ++ added) (cs' ++ cs) new l := by
  obtain ⟨ps, rfl, hitems, hchoices⟩ := h
  obtain ⟨qs, rfl, hitems', hchoices'⟩ := h'
  refine ⟨ps ++ qs, by rw [List.length_append, Nat.add_assoc], fun x => ?_, fun c => ?_⟩
  · rw [hitems' x, hitems x, itemsAfter_append, List.count_append,
      List.count_append]
    omega
  · rw [List.filterMap_append, List.count_append, List.count_append, hchoices c, hchoices' c,
      Nat.add_comm]

/-- Items that stand beside old ones stay beside new ones. -/
theorem Grows.beside (h : Grows n old added cs new l) {old' new' : List Item} (more : List Item)
    (ho : ∀ x, old'.count x = old.count x) (hn : ∀ x, new'.count x = new.count x + more.count x) :
    Grows n old' (more ++ added) cs new' l := by
  obtain ⟨ps, rfl, hitems, hchoices⟩ := h
  refine ⟨ps, rfl, fun x => ?_, hchoices⟩
  rw [hn x, hitems x, ho x, List.count_append]
  omega

theorem Grows.congr (h : Grows n old added cs new l)
    (ha : ∀ x, added'.count x = added.count x) : Grows n old added' cs new l := by
  obtain ⟨ps, hl, hitems, hchoices⟩ := h
  exact ⟨ps, hl, fun x => by rw [ha x, hitems x], hchoices⟩

/-- What is made first and then put beside old items comes to its items there. -/
theorem Grows.within {own : List Item} (h : Grows n [] added cs middle k)
    (h' : Grows k old (own ++ middle) cs' new l) :
    Grows n old (own ++ added) (cs ++ cs') new l := by
  obtain ⟨ps, rfl, hitems, hchoices⟩ := h
  obtain ⟨qs, rfl, hitems', hchoices'⟩ := h'
  refine ⟨ps ++ qs, by rw [List.length_append, Nat.add_assoc], fun x => ?_, fun c => ?_⟩
  · have hmiddle := hitems x
    rw [hitems' x, itemsAfter_append, List.count_append, List.count_append,
      List.count_append, hmiddle, List.count_nil]
    omega
  · rw [List.filterMap_append, List.count_append, List.count_append, hchoices c, hchoices' c]

/-- Two steps one after the other, each for itself. -/
theorem Grows.append {xs ys : List Item} (h : Grows n [] added cs xs k)
    (h' : Grows k [] added' cs' ys l) : Grows n [] (added ++ added') (cs ++ cs') (xs ++ ys) l := by
  have hbeside : Grows k [] (added' ++ xs) cs' (xs ++ ys) l := by
    refine (h'.beside xs (fun x => rfl) fun x => ?_).congr fun x => ?_
    · rw [List.count_append, Nat.add_comm]
    · rw [List.count_append, List.count_append, Nat.add_comm]
  refine (h.within hbeside).congr fun x => ?_
  rw [List.count_append, List.count_append, Nat.add_comm]

end

/-- A step that starts after the number `n` with some code comes to new code and the number `l`:
what it adds, that it uses no name but those that are visible around the old code, and that the new
code can be read if the old code and what is added can. -/
structure Extends (n : Nat) (old : Fragment) (added : List Item) (choices : List Nat)
    (new : Fragment) (l : Nat) : Prop where
  grows : Grows n old.items added choices new.items l
  uses : ∀ visible, old.ScopedIn visible → new.ScopedIn visible
  reads : (∀ x ∈ added, x.Readable) → old.Readable → new.Readable

section
variable {n k l : Nat} {old middle new : Fragment} {added added' : List Item} {cs cs' : List Nat}

theorem Extends.refl (n : Nat) (code : Fragment) : Extends n code [] [] code n :=
  ⟨.refl n _, fun _ h => h, fun _ h => h⟩

theorem Extends.trans (h : Extends n old added cs middle k)
    (h' : Extends k middle added' cs' new l) :
    Extends n old (added' ++ added) (cs' ++ cs) new l := by
  refine ⟨h.grows.trans h'.grows, fun visible hv => h'.uses visible (h.uses visible hv), ?_⟩
  intro ha ho
  obtain ⟨hlater, hearlier⟩ := List.forall_mem_append.mp ha
  exact h'.reads hlater (h.reads hearlier ho)

/-- Statements become the body of a function, whose name is all that is new. -/
theorem extends_toTerm {code : Fragment} {t : Term} (h : Makes code.toTerm n t l) :
    Extends n code [] [] (.term t) l := by
  cases code with
  | term t' =>
    obtain ⟨rfl, rfl⟩ := makes_pure_inv h
    exact .refl l _
  | block b =>
    obtain ⟨rfl, rfl⟩ := h.unique (makes_bind (makes_freshId n) (makes_pure _ _))
    refine ⟨⟨[.function], rfl, fun x => ?_, fun c => rfl⟩, fun visible hv => ⟨hv, ?_⟩,
      fun _ ho => ⟨ho, trivial⟩⟩
    · simp [Fragment.items, Term.items, Def.items, Expr.items, itemsAfter, Purpose.items,
        List.count_cons]
    · exact List.cons_subset_cons _ (List.nil_subset _)

theorem makes_prependOne_inv {next : Option Continuation} {add : Fragment → Gen Fragment}
    {next' : Continuation} (h : Makes (prependOne next add) n next' l) :
    Makes (add (orEnd next).code) n next'.code l := by
  rw [prependOne_orEnd] at h
  generalize orEnd next = next at h ⊢
  rw [prependOne] at h
  split at h
  · split at h <;>
    · obtain ⟨code, k, hadd, hpure⟩ := makes_bind_inv h
      obtain ⟨rfl, rfl⟩ := makes_pure_inv hpure
      exact hadd
  · cases h

theorem Term.joined_eq_ok {e : Expr} {defs : List Def} {t : Term}
    (h : Term.joined e defs = .ok t) : t = ⟨e, defs⟩ := by
  rw [joined] at h
  split at h
  · cases h
  · exact (Except.ok.inj h).symm

/-- A matcher in front of a continuation is the application of a combinator to both. -/
theorem makes_prependWith_inv {combine : Expr → Expr → Expr} {element : Term}
    {next : Option Continuation} {next' : Continuation}
    (h : Makes (prependWith combine element next) n next' l) :
    ∃ t, Makes (orEnd next).code.toTerm n t l ∧
      next'.code = .term ⟨combine element.expr t.expr, element.defs ++ t.defs⟩ := by
  obtain ⟨t, k, hterm, hrest⟩ := makes_bind_inv (makes_prependOne_inv h)
  obtain ⟨joined, k', hjoin, hpure⟩ := makes_bind_inv hrest
  obtain ⟨hjoined, rfl⟩ := makes_lift_inv hjoin
  obtain ⟨hcode, rfl⟩ := makes_pure_inv hpure
  exact ⟨t, hterm, hcode.trans (congrArg Fragment.term (Term.joined_eq_ok hjoined))⟩

/-- Taking results together adds nothing but the name of a function. -/
theorem extends_regroup {count : Int} {next : Continuation} {wrap : Wrap} {code : Fragment}
    (hw : wrap.Readable) (hk : next.kept ≤ next.captured)
    (h : Makes (regroup count next wrap) n code l) : Extends n next.code [] [] code l := by
  obtain ⟨pattern, k, hp, hrest⟩ := makes_bind_inv h
  obtain ⟨result, k', hr, hcode⟩ := makes_bind_inv hrest
  obtain ⟨hresult, rfl⟩ := makes_lift_inv hr
  obtain ⟨hpattern, rfl⟩ := makes_lift_inv hp
  split at hcode
  · obtain ⟨rfl, rfl⟩ := makes_pure_inv hcode
    exact .refl _ _
  · rename_i htext
    obtain ⟨t, m, hterm, hpure⟩ := makes_bind_inv hcode
    obtain ⟨rfl, rfl⟩ := makes_pure_inv hpure
    have ht := extends_toTerm hterm
    refine ⟨?_, fun visible hv => ?_, fun ha ho => ?_⟩
    · have hitems : (Fragment.block ((Block.regroup t.expr pattern result).after t.defs)).items =
          t.items := Block.items_after t.defs _
      rw [hitems]
      exact ht.grows
    · exact (Block.scopedIn_after t.defs _).mpr
        ((Fragment.scopedIn_term t).mp (ht.uses visible hv))
    · obtain ⟨hdefs, hexpr⟩ := (Fragment.readable_term t).mp (ht.reads ha ho)
      exact (Block.readable_after t.defs _).mpr
        ⟨hdefs, Block.readable_regroup hexpr hw hk hpattern hresult htext⟩

theorem makes_flattenHead_inv {count : Int} {next next' : Option Continuation} {wrap : Wrap}
    (h : Makes (flattenHead count next wrap) n next' l) :
    count = 0 ∧ next' = next ∧ l = n ∨
      0 < count ∧ ∃ whole flat, next = some whole ∧ next' = some flat ∧
        whole.kept ≤ whole.captured ∧ Makes (regroup count whole wrap) n flat.code l := by
  rw [flattenHead] at h
  split at h
  · rename_i hcounts
    split at h
    · rename_i hzero
      obtain ⟨rfl, rfl⟩ := makes_pure_inv h
      exact .inl ⟨hzero, rfl, rfl⟩
    · rename_i hne
      obtain ⟨code, k, hcode, hrest⟩ := makes_bind_inv h
      have hpos : 0 < count := lt_of_le_of_ne hcounts.1 (Ne.symm hne)
      cases next with
      | none =>
        have hzero : (Continuation.orDone none).kept = 0 := rfl
        omega
      | some whole =>
        refine .inr ⟨hpos, whole, ?_⟩
        split at hrest <;>
        · obtain ⟨rfl, rfl⟩ := makes_pure_inv hrest
          exact ⟨_, rfl, rfl, hcounts.2.2, hcode⟩
  · cases h

theorem extends_flatten {next : Continuation} {wrap : Wrap} {code : Fragment} (hw : wrap.Readable)
    (h : Makes (flatten (some next) wrap) n code l) : Extends n next.code [] [] code l := by
  obtain ⟨next', k, hflat, hpure⟩ := makes_bind_inv h
  obtain ⟨rfl, rfl⟩ := makes_pure_inv hpure
  rcases makes_flattenHead_inv hflat with ⟨-, rfl, rfl⟩ | ⟨-, whole, flat, hnext, rfl, hk, hregroup⟩
  · exact .refl _ _
  · cases hnext
    exact extends_regroup hw hk hregroup

end

/-- Compiling the body in front of any continuation adds what the body asks for. -/
def Adds (body : Body) : Prop :=
  ∀ next n k l, Makes (compile next body) n k l →
    Extends n (orEnd next).code body.items body.choices k.code l

section
variable {n l : Nat} {next : Option Continuation} {k : Continuation}

/-- An application holds what its arguments hold. -/
theorem grows_prependWith {combine : Expr → Expr → Expr} (own : List Item)
    (hi : ∀ a b x, (combine a b).items.count x =
      a.items.count x + b.items.count x + own.count x) {element : Term}
    (h : Makes (prependWith combine element next) n k l) :
    Grows n (orEnd next).code.items (own ++ element.items) [] k.code.items l := by
  obtain ⟨t, hterm, hcode⟩ := makes_prependWith_inv h
  rw [hcode]
  let joined : Fragment := .term ⟨combine element.expr t.expr, element.defs ++ t.defs⟩
  have hjoined : ∀ x, joined.items.count x =
      t.items.count x + (own ++ element.items).count x := by
    intro x
    simp only [joined, Fragment.items, Term.items, List.flatMap_append, List.count_append, hi]
    omega
  have hall := (extends_toTerm hterm).grows.beside (own ++ element.items) (fun x => rfl) hjoined
  rwa [List.append_nil] at hall

theorem scopedIn_prependWith {combine : Expr → Expr → Expr}
    (hn : ∀ a b, (combine a b).names = a.names ++ b.names) {element : Term}
    (he : element.ScopedIn []) (h : Makes (prependWith combine element next) n k l)
    {visible : List Local} (hv : (orEnd next).code.ScopedIn visible) : k.code.ScopedIn visible := by
  obtain ⟨t, hterm, hcode⟩ := makes_prependWith_inv h
  rw [hcode]
  have hrest := (Fragment.scopedIn_term t).mp ((extends_toTerm hterm).uses visible hv)
  have helement : element.ScopedIn visible := by
    refine ⟨he.1.mono (List.nil_subset _), ?_⟩
    have hnames := he.2
    rw [List.append_nil] at hnames
    exact List.Subset.trans hnames (List.subset_append_left _ _)
  have hnames : (combine element.expr t.expr).names ⊆ element.expr.names ++ t.expr.names := by
    rw [hn]
    exact List.Subset.refl _
  exact (Fragment.scopedIn_term _).mpr (helement.joined hrest hnames)

theorem readable_prependWith {combine : Expr → Expr → Expr}
    (hr : ∀ a b, a.Readable → b.Readable → (combine a b).Readable) {element : Term}
    (he : (Fragment.term element).Readable) (h : Makes (prependWith combine element next) n k l)
    (ho : (orEnd next).code.Readable) : k.code.Readable := by
  obtain ⟨t, hterm, hcode⟩ := makes_prependWith_inv h
  obtain ⟨hdefs, hexpr⟩ := (Fragment.readable_term element).mp he
  obtain ⟨hdefs', hexpr'⟩ :=
    (Fragment.readable_term t).mp ((extends_toTerm hterm).reads (fun x hx => by cases hx) ho)
  rw [hcode]
  exact (Fragment.readable_term _).mpr
    ⟨List.forall_mem_append.mpr ⟨hdefs, hdefs'⟩, hr _ _ hexpr hexpr'⟩

theorem adds_of_prependNext {body : Body} {e : Expr}
    (hc : ∀ next, compile next body = prependNext (.ofExpr e) next) (hn : e.names = [])
    (hi : e.items = body.items) (hs : body.choices = [])
    (hr : (∀ x ∈ body.items, x.Readable) → e.Readable) : Adds body := by
  intro next n k l h
  rw [hc] at h
  have helement : (Term.ofExpr e).ScopedIn [] := ⟨trivial, by rw [Term.ofExpr, hn]; simp⟩
  have hgrows := grows_prependWith [] (fun a b x => by simp [Expr.items]) h
  rw [hs, ← hi]
  refine ⟨hgrows, fun visible => scopedIn_prependWith (fun _ _ => rfl) helement h, fun ha => ?_⟩
  rw [hi] at ha
  have hreadable : (Fragment.term (.ofExpr e)).Readable := hr ha
  exact readable_prependWith (fun _ _ => And.intro) hreadable h

/-- An element is compiled for itself, and it ends where no node is left. -/
theorem adds_of_prependWith {combine : Expr → Expr → Expr} (item : Item) {body whole : Body}
    (hb : Adds body) (hc : ∀ next, compile next whole = do
      let element ← (← flatten (← compile none body) .plain).toTerm
      prependWith combine element next)
    (hi : ∀ a b x, (combine a b).items.count x =
      a.items.count x + b.items.count x + [item].count x)
    (hn : ∀ a b, (combine a b).names = a.names ++ b.names)
    (hr : ∀ a b, a.Readable → b.Readable → (combine a b).Readable)
    (hw : whole.items = item :: body.items) (hs : whole.choices = body.choices) : Adds whole := by
  intro next n k l h
  rw [hc] at h
  obtain ⟨inner, l₁, hinner, h₁⟩ := makes_bind_inv h
  obtain ⟨flat, l₂, hflat, h₂⟩ := makes_bind_inv h₁
  obtain ⟨element, l₃, hterm, h₃⟩ := makes_bind_inv h₂
  have hinside := (hb none n inner l₁ hinner).trans (extends_flatten Wrap.readable_plain hflat)
  have helement := hinside.trans (extends_toTerm hterm)
  have hscoped : element.ScopedIn [] :=
    (Fragment.scopedIn_term element).mp (helement.uses [] (List.nil_subset _))
  have hall := helement.grows.within (grows_prependWith [item] hi h₃)
  rw [hw, hs]
  simp only [List.nil_append, List.append_nil] at hall
  refine ⟨hall, fun visible => scopedIn_prependWith hn hscoped h₃, fun ha => ?_⟩
  have hreadable := helement.reads (fun x hx => ha x (List.mem_cons_of_mem item hx)) trivial
  exact readable_prependWith hr hreadable h₃

theorem adds_star {body : Body} (hb : Adds body) : Adds (.star body) := by
  refine adds_of_prependWith .star hb (fun next => by rw [compile]) (fun a b x => ?_)
    (fun _ _ => rfl) (fun _ _ => And.intro) (by rw [Body.items]) (by rw [Body.choices])
  rw [Expr.items, List.count_cons, List.count_append, List.count_singleton]

theorem adds_plus {body : Body} (hb : Adds body) : Adds (.plus body) := by
  refine adds_of_prependWith .plus hb (fun next => by rw [compile]) (fun a b x => ?_)
    (fun _ _ => rfl) (fun _ _ => And.intro) (by rw [Body.items]) (by rw [Body.choices])
  rw [Expr.items, List.count_cons, List.count_append, List.count_singleton]

theorem extends_compileAll {bodies : List Body} (h : ∀ b ∈ bodies, Adds b)
    {k : Option Continuation} (hm : Makes (compileAll next bodies) n k l) :
    Extends n (orEnd next).code (Body.itemsOf bodies) (Body.choicesOf bodies) (orEnd k).code l := by
  induction bodies generalizing k l with
  | nil =>
    rw [compileAll] at hm
    obtain ⟨rfl, rfl⟩ := makes_pure_inv hm
    rw [Body.itemsOf, Body.choicesOf]
    exact .refl _ _
  | cons body rest ih =>
    rw [compileAll] at hm
    obtain ⟨k₁, l₁, hrest, hm₁⟩ := makes_bind_inv hm
    obtain ⟨k₂, l₂, hbody, hm₂⟩ := makes_bind_inv hm₁
    obtain ⟨rfl, rfl⟩ := makes_pure_inv hm₂
    rw [Body.itemsOf, Body.choicesOf]
    exact (ih (fun b hb => h b (List.mem_cons_of_mem body hb)) hrest).trans
      (h body List.mem_cons_self k₁ l₁ k₂ l hbody)

theorem makes_group_inv {wrap : Wrap} {count : Nat} {elements : Gen (Option Continuation)}
    (h : Makes (group wrap count elements) n k l) :
    ∃ whole l', Makes elements n (some whole) l' ∧ whole.kept ≤ whole.captured ∧
      Makes (Continuation.regroup count whole wrap) l' k.code l := by
  rw [group] at h
  split at h
  · cases h
  · rename_i hne
    obtain ⟨inner, l₁, hinner, h₁⟩ := makes_bind_inv h
    obtain ⟨flat, l₂, hflat, h₂⟩ := makes_bind_inv h₁
    rcases makes_flattenHead_inv hflat with ⟨hzero, -, -⟩ |
      ⟨-, whole, made, rfl, rfl, hk, hregroup⟩
    · omega
    · obtain ⟨rfl, rfl⟩ := makes_pure_inv h₂
      exact ⟨whole, l₁, hinner, hk, hregroup⟩

theorem extends_compileGroup {wrap : Wrap} (hw : wrap.Readable) {bodies : List Body}
    (hb : ∀ b ∈ bodies, Adds b) (h : Makes (compileGroup wrap next bodies) n k l) :
    Extends n (orEnd next).code (Body.itemsOf bodies) (Body.choicesOf bodies) k.code l := by
  obtain ⟨whole, l', hall, hk, hregroup⟩ := makes_group_inv h
  exact (extends_compileAll hb hall).trans (extends_regroup hw hk hregroup)

theorem adds_seq {bodies : List Body} (hb : ∀ b ∈ bodies, Adds b) : Adds (.seq bodies) := by
  intro next n k l h
  rw [compile] at h
  rw [Body.items, Body.choices]
  exact extends_compileGroup Wrap.readable_plain hb h

theorem extends_compileCase {body : Body} (hb : ∀ e ∈ body.elements, Adds e) {index : Int}
    (hindex : 0 ≤ index) (h : Makes (compileCase index next body) n k l) :
    Extends n (orEnd next).code body.items body.choices k.code l := by
  have hitems : Body.itemsOf body.elements = body.items := by
    cases body <;> simp [Body.elements, Body.itemsOf, Body.items]
  have hchoices : Body.choicesOf body.elements = body.choices := by
    cases body <;> simp [Body.elements, Body.choicesOf, Body.choices]
  rw [← hitems, ← hchoices]
  exact extends_compileGroup (Wrap.readable_case hindex) hb h

end

/-- What the alternatives come to that are compiled in front of a continuation without items. -/
structure Branches (id index n : Nat) (bodies : List Body) (next : Continuation)
    (alternatives : List Alternative) (l : Nat) : Prop where
  ids : alternatives.map Prod.fst = (List.range' index bodies.length).map (.case id)
  grows : Grows n [] (Body.itemsOf bodies) (Body.choicesOf bodies)
    (alternatives.flatMap fun a => a.2.items) l
  uses : ∀ visible, next.code.ScopedIn visible → ∀ a ∈ alternatives, a.2.ScopedIn visible
  reads : (∀ x ∈ Body.itemsOf bodies, x.Readable) → next.code.Readable →
    ∀ a ∈ alternatives, a.2.Readable

theorem branches_of_makes {bodies : List Body} (hb : ∀ b ∈ bodies, ∀ e ∈ b.elements, Adds e)
    {id index n l : Nat} {next : Continuation} (hn : next.code.items = [])
    {counts : Option (Int × Int)} {cases : Cases}
    (h : Makes (compileCases id index next counts bodies) n cases l) :
    Branches id index n bodies next cases.1 l := by
  induction bodies generalizing index n l counts cases with
  | nil =>
    rw [compileCases] at h
    obtain ⟨rfl, rfl⟩ := makes_pure_inv h
    refine ⟨rfl, ?_, fun _ _ a ha => (by cases ha), fun _ _ a ha => (by cases ha)⟩
    rw [Body.itemsOf, Body.choicesOf]
    exact .refl _ _
  | cons body rest ih =>
    rw [compileCases_cons] at h
    obtain ⟨case, l₁, hcase, h₁⟩ := makes_bind_inv h
    obtain ⟨agreed, l₂, hagree, h₂⟩ := makes_bind_inv h₁
    obtain ⟨others, l₃, hothers, h₃⟩ := makes_bind_inv h₂
    obtain ⟨rfl, rfl⟩ := makes_pure_inv h₃
    obtain rfl : l₂ = l₁ := by
      unfold agree at hagree
      split at hagree
      · exact (makes_pure_inv hagree).2
      · split at hagree
        · exact (makes_pure_inv hagree).2
        · cases hagree
    have hfirst := extends_compileCase (hb body List.mem_cons_self) (Int.natCast_nonneg index) hcase
    have hrest := ih (fun b hm => hb b (List.mem_cons_of_mem body hm)) hothers
    refine ⟨?_, ?_, fun visible hv a ha => ?_, fun hr ho => ?_⟩
    · rw [List.map_cons, hrest.ids]
      rfl
    · have hcode : (orEnd (some next)).code.items = [] := hn
      have hgrows := hfirst.grows
      rw [hcode] at hgrows
      rw [Body.itemsOf, Body.choicesOf, List.flatMap_cons, Fragment.items_toBlock]
      exact hgrows.append hrest.grows
    · rcases List.mem_cons.mp ha with rfl | ha
      · exact hfirst.uses visible hv
      · exact hrest.uses visible hv a ha
    · rw [Body.itemsOf] at hr
      obtain ⟨hbody, hothers⟩ := List.forall_mem_append.mp hr
      exact List.forall_mem_cons.mpr ⟨hfirst.reads hbody ho, hrest.reads hothers ho⟩

/-- Statements that try matchers hold these and nothing else. -/
theorem items_firstOf {matchers : List Expr} {b : Block}
    (h : Block.firstOf matchers = .ok b) : b.items = matchers.flatMap Expr.items ∧
      (∀ visible, (∀ e ∈ matchers, e.names ⊆ visible) → b.ScopedIn visible) ∧
      ((∀ e ∈ matchers, e.Readable) → b.Readable) := by
  induction matchers generalizing b with
  | nil => cases h
  | cons e rest ih =>
    cases rest with
    | nil =>
      obtain rfl := Except.ok.inj h
      exact ⟨by simp [Block.items], fun visible hv => hv e List.mem_cons_self,
        fun hr => hr e List.mem_cons_self⟩
    | cons e' rest =>
      change (Block.firstOf (e' :: rest) >>= fun b' => pure (Block.attempt e b')) = _ at h
      rcases hr : Block.firstOf (e' :: rest) with _ | b'
      · rw [hr] at h
        cases h
      · rw [hr] at h
        obtain rfl := Except.ok.inj h
        obtain ⟨hitems, hscoped, hreadable⟩ := ih hr
        refine ⟨?_, fun visible hv => ⟨hv e List.mem_cons_self, ?_⟩, fun hread => ?_⟩
        · rw [Block.items, hitems]
          rfl
        · exact hscoped visible fun e hm => hv e (List.mem_cons_of_mem _ hm)
        · obtain ⟨hfirst, hothers⟩ := List.forall_mem_cons.mp hread
          exact ⟨hfirst, hreadable hothers⟩

/-- A list with one more element in front of each part of another list. -/
theorem count_flatMap_cons {α β : Type} [DecidableEq β] (f : α → β) (g : α → List β) (l : List α)
    (x : β) :
    (l.flatMap fun a => f a :: g a).count x = (l.flatMap g).count x + (l.map f).count x := by
  induction l with
  | nil => rfl
  | cons a l ih =>
    rw [List.flatMap_cons, List.flatMap_cons, List.map_cons, List.cons_append, List.count_cons,
      List.count_cons, List.count_append, List.count_append, ih]
    omega

/-- The statements of a choice: the functions of its alternatives, and then those that try them. -/
theorem alternatives_eq_ok {alternatives : List Alternative} {b : Block}
    (h : Block.alternatives alternatives = .ok b) :
    (∀ x, b.items.count x = (alternatives.flatMap fun a => a.2.items).count x +
      ((alternatives.map Prod.fst).map Item.define).count x) ∧
    (∀ visible, (∀ a ∈ alternatives, a.2.ScopedIn visible) → b.ScopedIn visible) ∧
    ((∀ a ∈ alternatives, a.2.Readable) → b.Readable) := by
  rw [Block.alternatives] at h
  rcases hf : Block.firstOf (alternatives.map fun a => .ref a.1) with _ | tries
  · rw [hf] at h
    cases h
  rw [hf] at h
  obtain rfl := Except.ok.inj h
  obtain ⟨hitems, hscoped, hreadable⟩ := items_firstOf hf
  have hafter : alternatives.foldr (fun a next => .define a.1 a.2 next) tries =
      tries.after (alternativeDefs alternatives) := by
    rw [Block.after, alternativeDefs, List.foldr_map]
  rw [hafter]
  refine ⟨fun x => ?_, fun visible hv => ?_, fun hread => ?_⟩
  · have htries : tries.items = [] := by
      rw [hitems, List.flatMap_map, List.flatMap_eq_nil_iff]
      exact fun _ _ => rfl
    rw [Block.items_after, htries, List.append_nil, alternativeDefs, List.flatMap_map, List.map_map]
    exact count_flatMap_cons (fun a => Item.define a.1) (fun a => a.2.items) alternatives x
  · apply Block.scopedIn_alternatives hv
    apply hscoped
    intro e he x hx
    obtain ⟨a, ha, rfl⟩ := List.mem_map.mp he
    rw [List.mem_singleton.mp hx]
    exact List.mem_append_left _ (List.mem_reverse.mpr (List.mem_map_of_mem ha))
  · refine (Block.readable_after _ _).mpr ⟨?_, hreadable fun e he => ?_⟩
    · exact List.forall_mem_map.mpr hread
    · obtain ⟨a, -, rfl⟩ := List.mem_map.mp he
      trivial

/-- A choice has a number of its own. It holds what follows once, and all alternatives use the name
that this is bound to. -/
theorem extends_choice {n l₁ l₂ : Nat} {old : Fragment} {bodies : List Body} {t : Term}
    {next : Continuation} {alternatives : List Alternative} {tries : Block}
    (ht : Extends (n + 1) old [] [] (.term t) l₁)
    (hb : Branches (n + 1) 0 l₁ bodies (next.called (.tail (n + 1))) alternatives l₂)
    (ha : Block.alternatives alternatives = .ok tries) :
    Extends n old (Body.itemsOf bodies) (bodies.length :: Body.choicesOf bodies)
      (.block (.bindTerm (.tail (n + 1)) t tries)) l₂ := by
  obtain ⟨hitems, hscoped, hreadable⟩ := alternatives_eq_ok ha
  refine ⟨?_, fun visible hv => ?_, fun hread ho => ?_⟩
  · obtain ⟨ps, rfl, htitems, htchoices⟩ := ht.grows
    obtain ⟨qs, rfl, hbitems, hbchoices⟩ := hb.grows
    refine ⟨.choice bodies.length :: (ps ++ qs), ?_, fun x => ?_, fun c => ?_⟩
    · rw [List.length_cons, List.length_append]
      omega
    · have hterm : t.items.count x = _ := htitems x
      have hblock : (Block.bindTerm (.tail (n + 1)) t tries).items.count x =
          t.items.count x + [Item.bind (.tail (n + 1))].count x + tries.items.count x := by
        rw [Block.bindTerm, Block.items_after, Block.items, Term.items, List.count_append,
          List.count_cons, List.count_append, List.count_append, List.count_singleton]
        omega
      have hcases : (alternatives.map Prod.fst).map Item.define =
          (List.range bodies.length).map fun i => .define (.case (n + 1) i) := by
        rw [hb.ids, ← List.range_eq_range', List.map_map]
        rfl
      rw [Fragment.items, hblock, hterm, hitems x, hbitems x, hcases, itemsAfter,
        itemsAfter_append, Purpose.items]
      simp only [List.cons_append, List.count_cons, List.count_append, List.count_nil]
      omega
    · rw [List.filterMap_cons, Purpose.alternatives?, List.filterMap_append, List.count_cons,
        List.count_append, htchoices c, hbchoices c, List.count_cons, List.count_nil]
      omega
  · have hterm := (Fragment.scopedIn_term t).mp (ht.uses visible hv)
    apply Block.scopedIn_bindTerm hterm
    apply hscoped
    apply hb.uses
    exact List.cons_subset_cons _ (List.nil_subset _)
  · obtain ⟨hdefs, hexpr⟩ := (Fragment.readable_term t).mp (ht.reads (fun x hx => by cases hx) ho)
    exact (Block.readable_after t.defs _).mpr
      ⟨hdefs, hexpr, hreadable (hb.reads hread trivial)⟩

theorem adds_choice {bodies : List Body} (hb : ∀ b ∈ bodies, ∀ e ∈ b.elements, Adds e) :
    Adds (.choice bodies) := by
  intro next n k l h
  rw [compile, choose] at h
  split at h
  · cases h
  obtain ⟨id, l₁, hid, h₁⟩ := makes_bind_inv h
  obtain ⟨rfl, rfl⟩ := makes_freshId_inv hid
  obtain ⟨tail, l₂, hterm, h₂⟩ := makes_bind_inv h₁
  obtain ⟨cases, l₃, hcases, h₃⟩ := makes_bind_inv h₂
  obtain ⟨tries, l₄, hlift, h₄⟩ := makes_bind_inv h₃
  obtain ⟨htries, rfl⟩ := makes_lift_inv hlift
  split at h₄
  · obtain ⟨rfl, rfl⟩ := makes_pure_inv h₄
    rw [Body.items, Body.choices]
    exact extends_choice (extends_toTerm hterm) (branches_of_makes hb rfl hcases) htries
  · cases h₄

mutual

/-- Every body adds what it asks for, and so do its elements, which are what an alternative is made
of. -/
theorem adds : (body : Body) → Adds body ∧ ∀ e ∈ body.elements, Adds e
  | .symbol name => by
    have h : Adds (.symbol name) := adds_of_prependNext (e := .rule name)
      (fun _ => by rw [compile]) rfl (by rw [Body.items]; rfl) (by rw [Body.choices])
      (by rw [Body.items]; exact fun h => h _ List.mem_cons_self)
    simpa [Body.elements] using h
  | .literal text => by
    have h : Adds (.literal text) := adds_of_prependNext (e := .leaf text)
      (fun _ => by rw [compile]) rfl (by rw [Body.items]; rfl) (by rw [Body.choices])
      (by rw [Body.items]; exact fun h => h _ List.mem_cons_self)
    simpa [Body.elements] using h
  | .pattern text => by
    have h : Adds (.pattern text) := adds_of_prependNext (e := .leaf text)
      (fun _ => by rw [compile]) rfl (by rw [Body.items]; rfl) (by rw [Body.choices])
      (by rw [Body.items]; exact fun h => h _ List.mem_cons_self)
    simpa [Body.elements] using h
  | .blank => by
    have h : Adds .blank := adds_of_prependNext (e := .success)
      (fun _ => by rw [compile]) rfl (by rw [Body.items]; rfl) (by rw [Body.choices])
      (by rw [Body.items]; exact fun _ => trivial)
    simpa [Body.elements] using h
  | .star body => by
    have h := adds_star (adds body).1
    simpa [Body.elements] using h
  | .plus body => by
    have h := adds_plus (adds body).1
    simpa [Body.elements] using h
  | .choice bodies => by
    have h := adds_choice fun b hb => (adds_of_mem bodies b hb).2
    simpa [Body.elements] using h
  | .seq bodies => by
    have hall : ∀ b ∈ bodies, Adds b := fun b hb => (adds_of_mem bodies b hb).1
    exact ⟨adds_seq hall, hall⟩

theorem adds_of_mem : (bodies : List Body) →
    ∀ b ∈ bodies, Adds b ∧ ∀ e ∈ b.elements, Adds e
  | [] => fun b hb => by cases hb
  | body :: rest => List.forall_mem_cons.mpr ⟨adds body, adds_of_mem rest⟩

end

end TreeGrammar.Code
