import TreeGrammar.Proofs.Alternatives

/-!
Bodies compiled in front of a continuation. Whatever the continuation is, the code yields the
results of the body followed by what the continuation yields after them, first results first.
The induction is on the body, for all continuations at once.
-/
namespace TreeGrammar

namespace Body

mutual

/-- No group of a body is empty. -/
def Grouped : Body → Prop
  | star body | plus body => Grouped body
  | choice bodies | seq bodies => bodies ≠ [] ∧ GroupedAll bodies
  | symbol _ | literal _ | pattern _ | blank => True

def GroupedAll : List Body → Prop
  | [] => True
  | body :: rest => Grouped body ∧ GroupedAll rest

end

/-- What a body relies on: that a rule answers, or that a token has a form in code. -/
inductive Need where
  | rule (name : Label)
  | token (text : Label)

mutual

/-- What a body relies on. -/
def needs : Body → List Need
  | symbol name => [.rule name]
  | literal text | pattern text => [.token text]
  | star body | plus body => needs body
  | choice bodies | seq bodies => needsOf bodies
  | blank => []

def needsOf : List Body → List Need
  | [] => []
  | body :: rest => needs body ++ needsOf rest

end

end Body

namespace Code

open Continuation (prependNext prependWith flattenHead flatten)

/-- Results of interest for the nodes, whatever nodes are. -/
abbrev Listing := (μ : Type) → Reading μ → List μ → List (List Value × List μ)

/-- The results of a body, each as one result of interest. -/
def Listing.ofBody (body : Body) : Listing :=
  fun _ read nodes => (body.results read nodes).map (Prod.map ([·]) id)

def Listing.ofBodies (bodies : List Body) : Listing :=
  fun _ read nodes => Body.resultsOfAll read bodies nodes

/-- The results of bodies as one marked result. -/
def Listing.taken (wrap : Wrap) (bodies : List Body) : Listing :=
  fun _ read nodes => (Body.resultsOfAll read bodies nodes).map
    (Prod.map (fun vs => [wrap.mark (.tupled vs)]) id)

section
variable {μ : Type}

theorem followedBy_finish (results : List (Value × List μ)) :
    followedBy (results.map (Prod.map ([·]) id))
        (fun nodes => if nodes.isEmpty then some ([], []) else none) =
      (complete results).map fun v => ([v], []) := by
  rw [followedBy, complete, List.findSome?_map, List.map_findSome?]
  congr 1
  funext r
  obtain ⟨v, rest⟩ := r
  cases rest <;> rfl

theorem usedUp_map (found : Option Value) :
    usedUp (found.map fun v => (v, ([] : List μ))) = found := by
  cases found <;> rfl

end

/-- The rules answer what is read, one result at most, and leaves are matched unless what their
matchers do is not looked at. -/
structure Interpretation.Meets {m : Type → Type} [Monad m] [MonadExceptOf RunFault m] {μ ν : Type}
    (I : Interpretation m μ ν) (needs : List Body.Need) : Prop where
  rule : ∀ name, .rule name ∈ needs → ∃ answer,
    I.judgement.Answers I.place (I.host.rule name) answer ∧
      ∀ nodes, I.read.call name nodes = (answer nodes).toList
  token : ∀ text, .token text ∈ needs →
    text.isFinite ∨ ∀ found : Match ν, I.judgement.returns (throw (.noNumber text)) found

section
variable {m : Type → Type} [Monad m] [MonadExceptOf RunFault m] {μ ν : Type}
  {I : Interpretation m μ ν}

theorem Interpretation.answers_leaf {text : Label} (h : I.Meets [.token text]) :
    I.judgement.Answers I.place (I.host.leafMatcher text) (I.read.leafOf text) := by
  have hshape : I.read.leafOf text = Match.ofFirst fun n =>
      if (I.read.kind n).alike text then some (I.read.leaf n) else none := by
    funext nodes
    cases nodes with
    | nil => rfl
    | cons n rest =>
      rw [Reading.leafOf, Match.ofFirst]
      by_cases hk : (I.read.kind n).alike text
      · rw [if_pos hk, if_pos hk]
        rfl
      · rw [if_neg hk, if_neg hk]
        rfl
  rw [hshape, Host.leafMatcher]
  by_cases hf : text.isFinite
  · rw [if_pos hf]
    apply Judgement.answers_node
    intro n
    rw [I.kind n]
    by_cases hk : (I.read.kind n).alike text
    · rw [if_pos hk, if_pos hk]
      exact I.judgement.returns_bind (I.leaf n) (I.judgement.returns_pure _)
    · rw [if_neg hk, if_neg hk]
      exact I.judgement.returns_pure _
  · rw [if_neg hf]
    rcases h.token text (List.mem_singleton_self _) with hw | hw
    · exact absurd hw hf
    · exact fun nodes => hw _

theorem Interpretation.Meets.left {a b : List Body.Need} (h : I.Meets (a ++ b)) : I.Meets a :=
  ⟨fun name hn => h.rule name (List.mem_append_left b hn),
    fun text ht => h.token text (List.mem_append_left b ht)⟩

theorem Interpretation.Meets.right {a b : List Body.Need} (h : I.Meets (a ++ b)) : I.Meets b :=
  ⟨fun name hn => h.rule name (List.mem_append_right a hn),
    fun text ht => h.token text (List.mem_append_right a ht)⟩

end

/-- A step that starts after the number `n` with a continuation, and puts `count` results of
interest in front of it, comes to `k` and the number `l`. The captured count tells nothing where no
result was of interest before. -/
structure Prepended (next : Continuation) (n count : Nat) (needs : List Body.Need)
    (listing : Listing) (k : Continuation) (l : Nat) : Prop where
  le : n ≤ l
  kept_eq : k.kept = next.kept + count
  kept_le : k.kept ≤ k.captured
  captured_eq : 0 < next.kept → k.captured = next.captured + count
  closed : k.code.Closed
  names : NamesFrom next.code.names n l k.code.names
  means : ∀ {m : Type → Type} [Monad m] [MonadExceptOf RunFault m] {μ ν : Type}
    (I : Interpretation m μ ν) (env : Env m ν) (kont : List μ → Yield μ), I.Meets needs →
      I.Means env next kont → I.Means env k fun nodes => followedBy (listing μ I.read nodes) kont

namespace Prepended

variable {next k k' : Continuation} {n l l' count count' : Nat} {needs : List Body.Need}
  {listing listing' : Listing}

theorem ready (h : Prepended next n count needs listing k l) (hn : next.Ready n) : k.Ready l :=
  ⟨by have := hn.kept_nonneg; have := h.kept_eq; omega, h.kept_le, h.closed,
    h.names.upTo hn.names h.le⟩

theorem nil (hn : next.Ready n) : Prepended next n 0 [] (.ofBodies []) next n := by
  refine ⟨le_rfl, by simp, hn.kept_le, by simp, hn.closed, .of_old fun _ hx => hx, ?_⟩
  intro m _ _ μ ν I env kont _ h
  have hkont : (fun nodes => followedBy (Listing.ofBodies [] μ I.read nodes) kont) = kont := by
    funext nodes
    rw [Listing.ofBodies, Body.resultsOfAll, followedBy_singleton]
    exact Option.map_id'
  rw [hkont]
  exact h

theorem cons {body : Body} {rest : List Body}
    (hr : Prepended next n rest.length (Body.needsOf rest) (.ofBodies rest) k l)
    (hb : Prepended k l 1 body.needs (.ofBody body) k' l') :
    Prepended next n (body :: rest).length (Body.needsOf (body :: rest))
      (.ofBodies (body :: rest)) k' l' := by
  have hlength : ((body :: rest).length : Int) = rest.length + 1 := by simp
  have hkept := hr.kept_eq
  have hkept' := hb.kept_eq
  refine ⟨hr.le.trans hb.le, by omega, hb.kept_le, ?_, hb.closed, ?_, ?_⟩
  · intro hpos
    have hcaptured := hr.captured_eq hpos
    have hcaptured' := hb.captured_eq (by omega)
    omega
  · exact hr.names.trans hb.names hr.le hb.le
  · intro m _ _ μ ν I env kont hw h
    have hrest := hr.means I env kont hw.right h
    have hall := hb.means I env _ hw.left hrest
    -- The code of the rest is what the first body is put in front of.
    have hkont : (fun nodes => followedBy (Listing.ofBodies (body :: rest) μ I.read nodes) kont) =
        fun nodes => followedBy (Listing.ofBody body μ I.read nodes) fun nodes =>
          followedBy (Listing.ofBodies rest μ I.read nodes) kont := by
      funext nodes
      rw [← followedBy_flatMap, Listing.ofBodies, Body.resultsOfAll, Listing.ofBody,
        List.flatMap_map]
      rfl
    rw [hkont]
    exact hall

end Prepended

theorem InFront.width_eq {next k : Continuation} {n l : Nat} (h : InFront next n k l) :
    k.width = next.width + 1 := by
  have hcaptured := h.captured_eq
  have hne : k.captured ≠ 0 := by omega
  rw [Continuation.width, if_neg hne]
  omega

theorem InFront.prepended {next k : Continuation} {n l : Nat} {needs : List Body.Need}
    {listing : Listing} (h : InFront next n k l) (hn : next.Ready n)
    (hm : ∀ {m : Type → Type} [Monad m] [MonadExceptOf RunFault m] {μ ν : Type}
      (I : Interpretation m μ ν) (env : Env m ν) (kont : List μ → Yield μ), I.Meets needs →
        I.Means env next kont → I.Delivers (next.kept.toNat + 1) (next.width + 1)
          (k.code.meaning I.host env) fun nodes => followedBy (listing μ I.read nodes) kont) :
    Prepended next n 1 needs listing k l := by
  have hkept := h.kept_eq
  have hcaptured := h.captured_eq
  have hnonneg := hn.kept_nonneg
  have hle := hn.kept_le
  have hwidth : next.captured ≤ next.width ∧ (0 < next.captured → next.width = next.captured) := by
    unfold Continuation.width
    split <;> omega
  refine ⟨h.le, by omega, by omega, by omega, h.closed, h.names, ?_⟩
  intro m _ _ μ ν I env kont hw hmeans
  have hnat : k.kept.toNat = next.kept.toNat + 1 := by omega
  rw [Interpretation.Means, h.width_eq, hnat]
  exact hm I env kont hw hmeans

section
variable {next : Option Continuation} {n : Nat}

theorem exists_prependNext {body : Body} {e : Expr} {needs : List Body.Need}
    (hn : (Continuation.orEnd next).Ready n) (he : e.Closed) (hnames : e.names = [])
    (ha : ∀ {m : Type → Type} [Monad m] [MonadExceptOf RunFault m] {μ ν : Type}
      (I : Interpretation m μ ν) (env : Env m ν), I.Meets needs →
        ∃ answer, I.judgement.Answers I.place (e.meaning I.host env) answer ∧
          ∀ nodes, (answer nodes).toList = body.results I.read nodes) :
    ∃ k l, Makes (prependNext (.ofExpr e) next) n k l ∧
      Prepended (Continuation.orEnd next) n 1 needs (.ofBody body) k l := by
  have hnone : NamesFrom [] n n (Term.ofExpr e).names := by
    intro x hx
    change x ∈ e.names at hx
    rw [hnames] at hx
    cases hx
  have hclosed : (Term.ofExpr e).expr.Closed := he
  obtain ⟨k, l, hmake, hfront, hmeaning⟩ := exists_prependWith joins_seq hn le_rfl hclosed hnone
  refine ⟨k, l, hmake, hfront.prepended hn ?_⟩
  intro m _ _ μ ν I env kont hw h
  obtain ⟨answer, hanswer, hresults⟩ := ha I env hw
  have hdelivers := Interpretation.delivers_seq hanswer h hn.one_le_width
  rw [hmeaning I.host env]
  simp only [Listing.ofBody, ← hresults]
  exact hdelivers

/-- The counts of a group in front of a continuation, whatever the group is. -/
def Continuation.groupCounts (next : Continuation) : Int × Int :=
  if 0 < next.kept then (next.captured + 1, next.kept + 1) else (1, 1)

theorem exists_group {k : Option Continuation} {base : Continuation} {l : Nat} {wrap : Wrap}
    (ho : wrap.IsOwn) {bodies : List Body} {elements : Gen (Option Continuation)}
    (hne : bodies ≠ []) (hn : base.Ready n) (hmake : Makes elements n k l) (hk : k.isSome)
    (hp : Prepended base n bodies.length (Body.needsOf bodies) (.ofBodies bodies)
      (Continuation.orEnd k) l) :
    ∃ k' l', Makes (group wrap bodies.length elements) n k' l' ∧
      (k'.captured, k'.kept) = base.groupCounts ∧
      Prepended base n 1 (Body.needsOf bodies) (.taken wrap bodies) k' l' := by
  obtain ⟨k, rfl⟩ := Option.isSome_iff_exists.mp hk
  change Prepended base n bodies.length _ _ k l at hp
  have hpos : 1 ≤ bodies.length := List.length_pos_of_ne_nil hne
  have hkept := hp.kept_eq
  have hnonneg := hn.kept_nonneg
  obtain ⟨k', l', hflat, htaken⟩ :=
    exists_flattenHead ho (hp.ready hn) hpos (n := l) (by omega)
  have hkept' := htaken.kept_eq
  have hcaptured' := htaken.captured_eq
  have hcounts : (k'.captured, k'.kept) = base.groupCounts := by
    unfold Continuation.groupCounts
    by_cases h : 0 < base.kept
    · have hcaptured := hp.captured_eq h
      rw [if_pos (by omega)] at hcaptured'
      rw [if_pos h]
      exact Prod.ext (by simp only; omega) (by simp only; omega)
    · rw [if_neg (by omega)] at hcaptured'
      rw [if_neg h]
      exact Prod.ext hcaptured' (by simp only; omega)
  -- Where a result was of interest before, the group adds one to both counts; else it is alone.
  refine ⟨k', l', ?_, hcounts, ?_⟩
  · have hzero : ¬ bodies.length = 0 := by omega
    rw [group, if_neg hzero]
    exact makes_bind hmake (makes_bind hflat (makes_pure _ l'))
  · obtain ⟨hcaptured'', hkept''⟩ := Prod.ext_iff.mp hcounts
    have hbase := hn.kept_le
    unfold Continuation.groupCounts at hcaptured'' hkept''
    refine ⟨hp.le.trans htaken.le, by omega, ?_, ?_, htaken.closed,
      hp.names.trans htaken.names hp.le htaken.le, ?_⟩
    · split at hcaptured'' <;> simp only at hcaptured'' hkept'' <;> omega
    · intro h
      rw [if_pos h] at hcaptured''
      exact hcaptured''
    · intro m _ _ μ ν I env kont hw h
      have hmeans := htaken.means I env _ (hp.means I env kont hw h)
      have hkont : (fun nodes => (followedBy (Listing.ofBodies bodies μ I.read nodes) kont).map
            (Prod.map (headTaken wrap bodies.length) id)) =
          fun nodes => followedBy (Listing.taken wrap bodies μ I.read nodes) kont := by
        funext nodes
        exact followedBy_headTaken (fun r hr => Body.length_of_mem_resultsOfAll hr) kont
      rw [hkont] at hmeans
      exact hmeans

end

/-- The compiler puts the results of a body in front of every continuation. -/
def Compiles (body : Body) : Prop :=
  ∀ next n, (Continuation.orEnd next).Ready n → ∃ k l, Makes (compile next body) n k l ∧
    Prepended (Continuation.orEnd next) n 1 body.needs (.ofBody body) k l

/-- A term for a body after which no node may be left. -/
structure Whole (body : Body) (n : Nat) (t : Term) (l : Nat) : Prop where
  le : n ≤ l
  closed : t.expr.Closed
  names : NamesFrom [] n l t.names
  answers : ∀ {m : Type → Type} [Monad m] [MonadExceptOf RunFault m] {μ ν : Type}
    (I : Interpretation m μ ν) (env : Env m ν), I.Meets body.needs →
      I.judgement.Answers I.place (t.meaning I.host env) fun nodes =>
        (complete (body.results I.read nodes)).map fun v => (v, [])

theorem exists_whole {body : Body} (hb : Compiles body) {next : Option Continuation}
    (hend : Continuation.orEnd next = .atEnd) (n : Nat) :
    ∃ t l, Makes (do (← flatten (← compile next body) .plain).toTerm) n t l ∧
      Whole body n t l := by
  obtain ⟨k, l, hmake, hp⟩ := hb next n (hend ▸ Continuation.ready_atEnd n)
  rw [hend] at hp
  have hready := hp.ready (Continuation.ready_atEnd n)
  have hkept : k.kept = (1 : Nat) := hp.kept_eq
  have hplain : Wrap.plain.IsOwn := trivial
  obtain ⟨flat, l', hflat, htaken⟩ := exists_flattenHead hplain hready le_rfl (n := l) (by omega)
  obtain ⟨t, l'', hterm, ht⟩ := exists_termed flat.code l'
  refine ⟨t, l'', ?_, hp.le.trans (htaken.le.trans ht.le), ht.closed htaken.closed, ?_, ?_⟩
  · refine makes_bind hmake (makes_bind ?_ hterm)
    dsimp only [flatten]
    rw [hkept]
    exact makes_bind hflat (makes_pure _ l')
  · exact hp.names.trans (htaken.names.trans ht.names htaken.le ht.le) hp.le (htaken.le.trans ht.le)
  · intro m _ _ μ ν I env hw
    have hmeans := htaken.means I env _ (hp.means I env _ hw Interpretation.delivers_finish)
    have hkept' : flat.kept = 1 := by
      rw [htaken.kept_eq, hkept]
      rfl
    have hwidth : flat.width = 1 := by
      have hcaptured := htaken.captured_eq
      rw [if_neg (by omega)] at hcaptured
      rw [Continuation.width, hcaptured]
      rfl
    obtain ⟨answer, hanswer, hpacks⟩ := hmeans
    have hkont (nodes : List μ) : (followedBy (Listing.ofBody body μ I.read nodes)
          fun nodes => if nodes.isEmpty then some ([], []) else none).map
            (Prod.map (headTaken .plain 1) id) =
        (complete (body.results I.read nodes)).map fun v => ([v], []) := by
      rw [Listing.ofBody, followedBy_finish, Option.map_map]
      rfl
    -- One value without anything beside it is the value of the first complete result.
    have heq : answer = fun nodes =>
        (complete (body.results I.read nodes)).map fun v => (v, []) := by
      funext nodes
      have h := hpacks nodes
      rw [hkept', hwidth] at h
      dsimp only at h
      rw [hkont nodes] at h
      exact h.eq_of_one
    rw [ht.meaning, ← heq]
    exact hanswer

theorem exists_repetition {combine : Expr → Expr → Expr} {least : Nat}
    (hj : Joins combine (Matcher.repetition least)) (hl : least ≤ 1) {body whole : Body}
    (hb : Compiles body) (hneeds : whole.needs = body.needs)
    (hresults : ∀ {μ : Type} (read : Reading μ) (nodes : List μ), whole.results read nodes =
      (cuts least (fun slice => complete (body.results read slice)) nodes).map
        (Prod.map .list id))
    {next : Option Continuation} {n : Nat} (hn : (Continuation.orEnd next).Ready n) :
    ∃ k l, Makes (do
        let element ← (← flatten (← compile none body) .plain).toTerm
        prependWith combine element next) n k l ∧
      Prepended (Continuation.orEnd next) n 1 whole.needs (.ofBody whole) k l := by
  -- The element starts over at the end of a sequence, so its slice has to be used up.
  obtain ⟨element, l, hmake, he⟩ := exists_whole hb (rfl : Continuation.orEnd none = .atEnd) n
  obtain ⟨k, l', hmake', hfront, hmeaning⟩ :=
    exists_prependWith hj hn he.le he.closed he.names
  refine ⟨k, l', ?_, hfront.prepended hn ?_⟩
  · have hall := makes_bind (f := fun element => prependWith combine element next) hmake hmake'
    simp only [bind_assoc] at hall
    exact hall
  · intro m _ _ μ ν I env kont hw h
    rw [hneeds] at hw
    have hdelivers := Interpretation.delivers_repetition hl (he.answers I env hw) h
      hn.one_le_width
    have hlisting (nodes : List μ) : Listing.ofBody whole μ I.read nodes =
        (cuts least (fun slice => complete (body.results I.read slice)) nodes).map
          (Prod.map (fun vs => [.list vs]) id) := by
      rw [Listing.ofBody, hresults, List.map_map]
      rfl
    simp only [usedUp_map] at hdelivers
    rw [hmeaning I.host env]
    simp only [hlisting]
    exact hdelivers

end Code

end TreeGrammar
