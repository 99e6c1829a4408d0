import Mathlib.Data.List.Nodup
import TreeGrammar.Proofs.Compilation

/-!
Every body compiles, in front of every continuation. The alternatives of a choice share what
follows: it is bound to a name, and every alternative is compiled in front of that name.
-/
namespace TreeGrammar.Code

open Continuation (prependNext)

/-- The results of alternatives, each as one result of interest. -/
def Listing.ofCases (index : Nat) (bodies : List Body) : Listing :=
  fun _ read nodes => (Body.resultsOfCases read index bodies nodes).map (Prod.map ([·]) id)

theorem Continuation.Ready.mono {next : Continuation} {n l : Nat} (h : next.Ready n)
    (hl : n ≤ l) : next.Ready l :=
  ⟨h.kept_nonneg, h.kept_le, h.closed, fun x hx => (h.names x hx).trans hl⟩

theorem exists_compileAll {bodies : List Body} (h : ∀ b ∈ bodies, Compiles b)
    {next : Option Continuation} {n : Nat} (hn : (Continuation.orEnd next).Ready n) :
    ∃ k l, Makes (compileAll next bodies) n k l ∧ (bodies ≠ [] → k.isSome) ∧
      Prepended (Continuation.orEnd next) n bodies.length (Body.needsOf bodies)
        (.ofBodies bodies) (Continuation.orEnd k) l := by
  induction bodies with
  | nil =>
    have hmake : Makes (compileAll next []) n next n := by
      rw [compileAll]
      exact makes_pure next n
    exact ⟨next, n, hmake, fun hne => absurd rfl hne, Prepended.nil hn⟩
  | cons body rest ih =>
    obtain ⟨k, l, hmake, -, hrest⟩ := ih fun b hb => h b (List.mem_cons_of_mem body hb)
    obtain ⟨k', l', hmake', hbody⟩ := h body List.mem_cons_self k l (hrest.ready hn)
    refine ⟨some k', l', ?_, fun _ => rfl, hrest.cons hbody⟩
    rw [compileAll]
    exact makes_bind hmake (makes_bind hmake' (makes_pure _ l'))

theorem exists_compileCase {body : Body} (hne : body.elements ≠ [])
    (h : ∀ e ∈ body.elements, Compiles e) (index : Nat) {next : Continuation} {n : Nat}
    (hn : next.Ready n) :
    ∃ k l, Makes (compileCase index (some next) body) n k l ∧
      (k.captured, k.kept) = next.groupCounts ∧
      Prepended next n 1 body.needs (.taken (.case index) body.elements) k l := by
  have hnext : (Continuation.orEnd (some next)).Ready n := hn
  obtain ⟨k, l, hmake, hk, hp⟩ := exists_compileAll h hnext
  have hneeds : Body.needsOf body.elements = body.needs := by
    cases body <;> simp [Body.elements, Body.needsOf, Body.needs]
  have hown : (Wrap.case index).IsOwn := trivial
  have hgroup := exists_group hown hne hn hmake (hk hne) hp
  rw [hneeds] at hgroup
  exact hgroup

/-- The alternatives that bodies are compiled to in front of a continuation, and what trying them
in turn delivers. -/
structure Tried (id index : Nat) (next : Continuation) (n : Nat) (bodies : List Body)
    (alternatives : List Alternative) (l : Nat) : Prop where
  le : n ≤ l
  ids : alternatives.map Prod.fst = (List.range' index bodies.length).map (.case id)
  names : ∀ a ∈ alternatives, NamesFrom next.code.names n l a.2.names
  delivers : ∀ {m : Type → Type} [Monad m] [MonadExceptOf RunFault m] {μ ν : Type}
    (I : Interpretation m μ ν) (env : Env m ν) (kont : List μ → Yield μ),
      I.Meets (Body.needsOf bodies) → I.Means env next kont →
      I.Delivers next.groupCounts.2.toNat next.groupCounts.1.toNat
        (firstMatch (alternatives.map fun a => a.2.meaning I.host env)) fun nodes =>
          followedBy (Listing.ofCases index bodies μ I.read nodes) kont

theorem Tried.alternatives_ne_nil {id index : Nat} {next : Continuation} {n l : Nat}
    {bodies : List Body} {alternatives : List Alternative}
    (h : Tried id index next n bodies alternatives l) (hne : bodies ≠ []) : alternatives ≠ [] := by
  rintro rfl
  have hids := congrArg List.length h.ids
  rw [List.length_map, List.length_map, List.length_range'] at hids
  exact hne (List.eq_nil_of_length_eq_zero hids.symm)

theorem Continuation.Ready.groupCounts_pos {next : Continuation} {n : Nat} (h : next.Ready n) :
    0 < next.groupCounts.1 ∧ 0 < next.groupCounts.2 ∧
      next.groupCounts.2 ≤ next.groupCounts.1 := by
  have := h.kept_nonneg
  have := h.kept_le
  unfold Continuation.groupCounts
  split <;> refine ⟨?_, ?_, ?_⟩ <;> simp only <;> omega

theorem ofCases_cons {μ : Type} (read : Reading μ) (index : Nat) (body : Body)
    (rest : List Body) (nodes : List μ) (kont : List μ → Yield μ) :
    followedBy (Listing.ofCases index (body :: rest) μ read nodes) kont =
      (followedBy (Listing.taken (.case index) body.elements μ read nodes) kont).or
        (followedBy (Listing.ofCases (index + 1) rest μ read nodes) kont) := by
  have hfirst : Listing.taken (.case index) body.elements μ read nodes =
      ((body.results read nodes).map (Prod.map (.case index) id)).map (Prod.map ([·]) id) := by
    rw [← Body.resultsOfAll_elements, List.map_map, List.map_map]
    rfl
  rw [hfirst, Listing.ofCases, Body.resultsOfCases, List.map_append, followedBy_append]
  rfl

theorem Tried.nil (id index : Nat) (next : Continuation) (n : Nat) :
    Tried id index next n [] [] n := by
  refine ⟨le_rfl, rfl, ?_, ?_⟩
  · intro a ha
    cases ha
  · intro m _ _ μ ν I env kont _ _
    exact ⟨fun _ => none, fun nodes => I.judgement.returns_pure _, fun nodes => .none⟩

theorem Tried.cons {id index : Nat} {next k : Continuation} {n l l' : Nat} {body : Body}
    {rest : List Body} {alternatives : List Alternative} (hn : next.Ready n)
    (hk : (k.captured, k.kept) = next.groupCounts)
    (hp : Prepended next n 1 body.needs (.taken (.case index) body.elements) k l)
    (ht : Tried id (index + 1) next l rest alternatives l') :
    Tried id index next n (body :: rest) ((.case id index, k.code.toBlock) :: alternatives) l' := by
  refine ⟨hp.le.trans ht.le, ?_, ?_, ?_⟩
  · rw [List.map_cons, ht.ids]
    rfl
  · intro a ha
    rcases List.mem_cons.mp ha with rfl | ha
    · rw [k.code.names_toBlock]
      exact hp.names.mono le_rfl ht.le
    · exact (ht.names a ha).mono hp.le le_rfl
  · intro m _ _ μ ν I env kont hw hmeans
    have hfirst := hp.means I env kont hw.left hmeans
    have hrest := ht.delivers I env kont hw.right hmeans
    obtain ⟨hpos, -, -⟩ := hn.groupCounts_pos
    have hkept : k.kept = next.groupCounts.2 := congrArg Prod.snd hk
    have hwidth : k.width = next.groupCounts.1.toNat := by
      rw [← hk] at hpos ⊢
      exact if_neg hpos.ne'
    rw [Interpretation.Means, hwidth, hkept] at hfirst
    simp only [ofCases_cons]
    apply Interpretation.delivers_firstMatch hfirst hrest
    -- The last alternative is tried without another one to follow.
    intro hnil nodes
    by_cases hlast : rest = []
    · rw [hlast]
      rfl
    · exact absurd (List.map_eq_nil_iff.mp hnil) (ht.alternatives_ne_nil hlast)

theorem exists_compileCases {bodies : List Body}
    (h : ∀ b ∈ bodies, b.elements ≠ [] ∧ ∀ e ∈ b.elements, Compiles e) (id index : Nat)
    {next : Continuation} {counts : Option (Int × Int)}
    (hc : counts = none ∨ counts = some next.groupCounts) {n : Nat} (hn : next.Ready n) :
    ∃ alternatives counts' l,
      Makes (compileCases id index next counts bodies) n (alternatives, counts') l ∧
      (counts' = some next.groupCounts ∨ bodies = [] ∧ counts = none) ∧
      Tried id index next n bodies alternatives l := by
  induction bodies generalizing index counts n with
  | nil =>
    have hmake : Makes (compileCases id index next counts []) n ([], counts) n := by
      rw [compileCases]
      exact makes_pure _ n
    refine ⟨[], counts, n, hmake, ?_, .nil id index next n⟩
    exact hc.symm.imp_right fun hnone => ⟨rfl, hnone⟩
  | cons body rest ih =>
    obtain ⟨hne, hbody⟩ := h body List.mem_cons_self
    obtain ⟨k, l, hmake, hk, hp⟩ := exists_compileCase hne hbody index hn
    -- All alternatives have the counts of a group, so they never disagree.
    have hagree : Makes (agree counts k) l next.groupCounts l := by
      rw [← hk] at hc ⊢
      rcases hc with rfl | rfl
      · exact makes_pure _ l
      · rw [agree, if_pos rfl]
        exact makes_pure _ l
    obtain ⟨alternatives, counts', l', hmake', hcounts, ht⟩ :=
      ih (fun b hb => h b (List.mem_cons_of_mem body hb)) (index + 1) (.inr rfl)
        (hn.mono hp.le)
    refine ⟨(.case id index, k.code.toBlock) :: alternatives, counts', l', ?_, ?_,
      ht.cons hn hk hp⟩
    · rw [compileCases_cons]
      exact makes_bind hmake (makes_bind hagree (makes_bind hmake' (makes_pure _ l')))
    · exact .inl (hcounts.resolve_right fun hnone => Option.some_ne_none _ hnone.2)

theorem Tried.apart {id index : Nat} {next : Continuation} {n l : Nat} {bodies : List Body}
    {alternatives : List Alternative} (h : Tried id index next n bodies alternatives l)
    (hid : id ≤ n) (hnames : ∀ i, Local.case id i ∉ next.code.names) : Apart alternatives := by
  constructor
  · have hrange : (List.range' index bodies.length).Nodup := List.nodup_range'
    rw [h.ids]
    apply List.Nodup.map _ hrange
    intro i j heq
    injection heq
  · intro a ha b hb hmem
    have hb' : b.1 ∈ alternatives.map Prod.fst := List.mem_map_of_mem hb
    rw [h.ids] at hb'
    obtain ⟨i, -, hi⟩ := List.mem_map.mp hb'
    rw [← hi] at hmem
    rcases h.names a ha _ hmem with hold | hnew
    · exact hnames i hold
    · have : id = (Local.case id i).id := rfl
      omega

/-- A continuation whose code is bound to a name. -/
def Continuation.called (next : Continuation) (name : Local) : Continuation :=
  next.mapCode fun _ => .ofExpr (.ref name)

theorem Continuation.Ready.called {next : Continuation} {n l : Nat} (h : next.Ready n)
    {name : Local} (hid : name.id ≤ l) : (next.called name).Ready l := by
  refine ⟨h.kept_nonneg, h.kept_le, rfl, fun x hx => ?_⟩
  rw [List.mem_singleton.mp hx]
  exact hid

theorem Continuation.groupCounts_snd {next : Continuation} (h : 0 ≤ next.kept) :
    next.groupCounts.2 = next.kept + 1 := by
  unfold groupCounts
  split <;> simp only
  omega

section
variable {next : Continuation} {n l l' : Nat} {t : Term}

/-- The name that a continuation is bound to means what the continuation means. -/
theorem means_called {m : Type → Type} [Monad m] [MonadExceptOf RunFault m] {μ ν : Type}
    {I : Interpretation m μ ν} {env : Env m ν} {kont : List μ → Yield μ}
    (ht : Termed next.code n t l) (h : I.Means env next kont) (name : Local) :
    I.Means ((env.extend I.host t.defs).bind name (t.meaning I.host env)) (next.called name)
      kont := by
  have hcode : (next.called name).code.meaning I.host
      ((env.extend I.host t.defs).bind name (t.meaning I.host env)) =
        next.code.meaning I.host env := by
    rw [← ht.meaning]
    apply Expr.meaning_ref I.host
    exact if_pos rfl
  rw [Interpretation.Means, hcode]
  exact h

/-- The names of a choice: the one that is bound to what follows, those of the alternatives, and
those in the code of what follows. -/
theorem Tried.names_bindTerm {bodies : List Body} {alternatives : List Alternative} {tries : Block}
    (ht : Termed next.code (n + 1) t l)
    (h : Tried (n + 1) 0 (next.called (.tail (n + 1))) l bodies alternatives l')
    (htries : ∀ x ∈ tries.names, ∃ c ∈ alternatives, x = c.1 ∨ x ∈ c.2.names) :
    NamesFrom next.code.names n l' (Block.bindTerm (.tail (n + 1)) t tries).names := by
  have hle := ht.le
  have hle' := h.le
  have hnew : n < n + 1 ∧ n + 1 ≤ l' := ⟨Nat.lt_succ_self n, hle.trans hle'⟩
  intro x hx
  rcases Block.mem_names_bindTerm.mp hx with rfl | hx | hx
  · exact .inr hnew
  · exact ht.names.mono (Nat.le_succ n) hle' x hx
  · obtain ⟨c, hc, hx⟩ := htries x hx
    rcases hx with rfl | hx
    · have hid : c.1 ∈ alternatives.map Prod.fst := List.mem_map_of_mem hc
      rw [h.ids] at hid
      obtain ⟨i, -, hi⟩ := List.mem_map.mp hid
      rw [← hi]
      exact .inr hnew
    · rcases h.names c hc x hx with hold | hlater
      · rw [List.mem_singleton.mp hold]
        exact .inr hnew
      · exact .inr ⟨by omega, hlater.2⟩

end

theorem compiles_choice {bodies : List Body} (hne : bodies ≠ [])
    (h : ∀ b ∈ bodies, b.elements ≠ [] ∧ ∀ e ∈ b.elements, Compiles e) :
    Compiles (.choice bodies) := by
  intro next n hn
  obtain ⟨t, l, hterm, ht⟩ := exists_termed (Continuation.orEnd next).code (n + 1)
  have hid : (Local.tail (n + 1)).id ≤ l := ht.le
  have hshared : ((Continuation.orEnd next).called (.tail (n + 1))).Ready l := hn.called hid
  obtain ⟨alternatives, counts, l', hmake, hcounts, hcases⟩ :=
    exists_compileCases h (n + 1) 0 (.inl rfl) hshared
  obtain rfl := hcounts.resolve_right fun hnil => hne hnil.1
  have hapart : Apart alternatives := by
    apply hcases.apart ht.le
    intro i hi
    cases List.mem_singleton.mp hi
  obtain ⟨tries, htries, hnames, hmeaning⟩ :=
    exists_alternatives (hcases.alternatives_ne_nil hne) hapart
  obtain ⟨hpos, -, hle⟩ := hn.groupCounts_pos
  refine ⟨⟨(Continuation.orEnd next).groupCounts.1, (Continuation.orEnd next).groupCounts.2,
    .block (.bindTerm (.tail (n + 1)) t tries)⟩, l', ?_, ?_⟩
  · have hzero : ¬ bodies.length = 0 := fun hz => hne (List.eq_nil_of_length_eq_zero hz)
    rw [compile, choose, if_neg hzero]
    exact makes_bind (makes_freshId n) (makes_bind hterm (makes_bind hmake
      (makes_bind (makes_lift htries l') (makes_pure _ l'))))
  · refine ⟨?_, Continuation.groupCounts_snd hn.kept_nonneg, hle,
      fun h => congrArg Prod.fst (if_pos h), trivial, hcases.names_bindTerm ht hnames, ?_⟩
    · have := ht.le
      have := hcases.le
      omega
    · intro m _ _ μ ν I env kont hw hmeans
      have hdelivers := hcases.delivers I _ kont hw (means_called ht hmeans (.tail (n + 1)))
      rw [← hmeaning, ← Block.meaning_bindTerm] at hdelivers
      have hwidth : Continuation.width ⟨(Continuation.orEnd next).groupCounts.1,
          (Continuation.orEnd next).groupCounts.2, .block (.bindTerm (.tail (n + 1)) t tries)⟩ =
            (Continuation.orEnd next).groupCounts.1.toNat :=
        if_neg hpos.ne'
      have hlisting (nodes : List μ) : Listing.ofBody (.choice bodies) μ I.read nodes =
          Listing.ofCases 0 bodies μ I.read nodes := by
        rw [Listing.ofBody, Body.results]
        rfl
      rw [Interpretation.Means, hwidth]
      simp only [hlisting]
      exact hdelivers

theorem compiles_symbol (name : Label) : Compiles (.symbol name) := by
  intro next n hn
  rw [compile]
  apply exists_prependNext (e := .rule name) hn rfl rfl
  intro m _ _ μ ν I env hw
  obtain ⟨answer, hanswers, hread⟩ := hw.rule name (List.mem_singleton_self _)
  refine ⟨answer, hanswers, fun nodes => ?_⟩
  rw [Body.results, hread]

theorem compiles_blank : Compiles .blank := by
  intro next n hn
  rw [compile]
  apply exists_prependNext (e := .success) hn rfl rfl
  intro m _ _ μ ν I env _
  refine ⟨_, Judgement.answers_success, fun nodes => ?_⟩
  rw [Body.results]
  rfl

theorem compiles_leaf {body : Body} {text : Label}
    (hc : ∀ next, compile next body = prependNext (.ofExpr (.leaf text)) next)
    (ht : body.needs = [.token text])
    (hr : ∀ {μ : Type} (read : Reading μ) (nodes : List μ),
      body.results read nodes = (read.leafOf text nodes).toList) : Compiles body := by
  intro next n hn
  rw [hc]
  apply exists_prependNext (e := .leaf text) hn rfl rfl
  intro m _ _ μ ν I env hw
  rw [ht] at hw
  exact ⟨_, Interpretation.answers_leaf hw, fun nodes => (hr I.read nodes).symm⟩

theorem compiles_star {body : Body} (hb : Compiles body) : Compiles (.star body) := by
  intro next n hn
  rw [compile]
  apply exists_repetition joins_star (Nat.zero_le 1) hb (by rw [Body.needs]) ?_ hn
  intro μ read nodes
  rw [Body.results]
  rfl

theorem compiles_plus {body : Body} (hb : Compiles body) : Compiles (.plus body) := by
  intro next n hn
  rw [compile]
  apply exists_repetition joins_plus le_rfl hb (by rw [Body.needs]) ?_ hn
  intro μ read nodes
  rw [Body.results, cuts, if_neg Nat.one_ne_zero, List.append_nil]

theorem compiles_seq {bodies : List Body} (hne : bodies ≠ []) (h : ∀ b ∈ bodies, Compiles b) :
    Compiles (.seq bodies) := by
  intro next n hn
  obtain ⟨k, l, hmake, hk, hp⟩ := exists_compileAll h hn
  have hplain : Wrap.plain.IsOwn := trivial
  obtain ⟨k', l', hgroup, -, hp'⟩ := exists_group hplain hne hn hmake (hk hne) hp
  have hlisting : Listing.ofBody (.seq bodies) = .taken .plain bodies := by
    funext μ read nodes
    rw [Listing.ofBody, Body.results, List.map_map]
    rfl
  refine ⟨k', l', by rwa [compile_seq], ?_⟩
  rw [Body.needs, hlisting]
  exact hp'

mutual

/-- Every body without empty groups compiles, and so do its elements, which are what an alternative
is made of. -/
theorem compiles : (body : Body) → body.Grouped → Compiles body ∧ ∀ e ∈ body.elements, Compiles e
  | .symbol name, _ => by simpa [Body.elements] using compiles_symbol name
  | .literal text, _ => by
    have h : Compiles (.literal text) := compiles_leaf (fun _ => by rw [compile])
      (by rw [Body.needs]) fun _ _ => by rw [Body.results]
    simpa [Body.elements] using h
  | .pattern text, _ => by
    have h : Compiles (.pattern text) := compiles_leaf (fun _ => by rw [compile])
      (by rw [Body.needs]) fun _ _ => by rw [Body.results]
    simpa [Body.elements] using h
  | .blank, _ => by simpa [Body.elements] using compiles_blank
  | .star body, h => by
    have hstar := compiles_star (compiles body h).1
    simpa [Body.elements] using hstar
  | .plus body, h => by
    have hplus := compiles_plus (compiles body h).1
    simpa [Body.elements] using hplus
  | .choice bodies, h => by
    have hchoice := compiles_choice h.1 fun b hb => (compiles_of_mem bodies h.2 b hb).2
    simpa [Body.elements] using hchoice
  | .seq bodies, h => by
    have hall : ∀ b ∈ bodies, Compiles b := fun b hb => (compiles_of_mem bodies h.2 b hb).1
    exact ⟨compiles_seq h.1 hall, hall⟩

theorem compiles_of_mem : (bodies : List Body) → Body.GroupedAll bodies →
    ∀ b ∈ bodies, Compiles b ∧ b.elements ≠ [] ∧ ∀ e ∈ b.elements, Compiles e
  | [], _ => fun b hb => by cases hb
  | body :: rest, h => by
    have hbody := compiles body h.1
    have hne : body.elements ≠ [] := by
      cases body with
      | seq bodies => exact h.1.1
      | _ => exact List.cons_ne_nil _ _
    exact List.forall_mem_cons.mpr ⟨⟨hbody.1, hne, hbody.2⟩, compiles_of_mem rest h.2⟩

end

end TreeGrammar.Code
