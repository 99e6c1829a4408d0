import TreeGrammar.Proofs.Flattening

/-!
The alternatives of a choice. Their functions are defined one after the other and tried in turn. As
none of them mentions the name of another, this means the first match of all of them.
-/
namespace TreeGrammar.Code

def alternativeDefs (alternatives : List Alternative) : List Def :=
  alternatives.map fun a => .function a.1 a.2

/-- The alternatives have different names, and none mentions the name of any. -/
structure Apart (alternatives : List Alternative) : Prop where
  nodup : (alternatives.map Prod.fst).Nodup
  notMem : ∀ a ∈ alternatives, ∀ b ∈ alternatives, b.1 ∉ a.2.names

theorem Apart.tail {a : Alternative} {rest : List Alternative} (h : Apart (a :: rest)) :
    Apart rest :=
  ⟨(List.nodup_cons.mp h.nodup).2, fun b hb c hc =>
    h.notMem b (List.mem_cons_of_mem _ hb) c (List.mem_cons_of_mem _ hc)⟩

/-- Trying expressions in turn is the first match of their meanings. -/
theorem exists_firstOf (e : Expr) (rest : List Expr) :
    ∃ b, Block.firstOf (e :: rest) = .ok b ∧ b.names = (e :: rest).flatMap Expr.names ∧
      ∀ {m : Type → Type} [Monad m] [MonadExceptOf RunFault m] {ν : Type} (host : Host m ν)
        (env : Env m ν),
        b.meaning host env = firstMatch ((e :: rest).map fun e => e.meaning host env) := by
  induction rest generalizing e with
  | nil =>
    refine ⟨.ret e, rfl, ?_, fun _ _ => rfl⟩
    rw [List.flatMap_singleton]
    rfl
  | cons e' rest ih =>
    obtain ⟨b, hb, hnames, hmeaning⟩ := ih e'
    refine ⟨.attempt e b, ?_, ?_, ?_⟩
    · change (Block.firstOf (e' :: rest) >>= fun b' => pure (Block.attempt e b')) = _
      rw [hb]
      rfl
    · rw [List.flatMap_cons, ← hnames]
      rfl
    · intro m _ _ ν host env
      funext nodes
      rw [Block.meaning, hmeaning]
      rfl

/-- After their definitions the names of alternatives mean what the alternatives mean before. -/
theorem extend_alternatives {m : Type → Type} [Monad m] [MonadExceptOf RunFault m] {ν : Type}
    (host : Host m ν) (env : Env m ν) {alternatives : List Alternative} (h : Apart alternatives)
    {a : Alternative} (ha : a ∈ alternatives) :
    env.extend host (alternativeDefs alternatives) a.1 = some (a.2.meaning host env) := by
  induction alternatives generalizing env with
  | nil => cases ha
  | cons b rest ih =>
    -- The definitions that come later bind neither this name nor those that its code mentions.
    have hb : ∀ c ∈ b :: rest, b.1 ∉ c.2.names := fun c hc => h.notMem c hc b List.mem_cons_self
    change (env.bind b.1 (b.2.meaning host env)).extend host (alternativeDefs rest) a.1 = _
    rcases List.mem_cons.mp ha with rfl | ha
    · rw [Env.extend_of_notMem, Env.bind, if_pos rfl]
      intro hm
      obtain ⟨d, hd, hx⟩ := List.mem_flatMap.mp hm
      obtain ⟨c, hc, rfl⟩ := List.mem_map.mp hd
      rcases List.mem_cons.mp hx with heq | hx
      · exact (List.nodup_cons.mp h.nodup).1 (heq ▸ List.mem_map_of_mem hc)
      · exact hb c (List.mem_cons_of_mem _ hc) hx
    · rw [ih _ h.tail ha]
      congr 1
      apply Block.meaning_congr
      intro x hx
      exact if_neg fun (heq : x = b.1) => hb a (List.mem_cons_of_mem _ ha) (heq ▸ hx)

theorem exists_alternatives {alternatives : List Alternative} (hne : alternatives ≠ [])
    (h : Apart alternatives) :
    ∃ b, Block.alternatives alternatives = .ok b ∧
      (∀ x ∈ b.names, ∃ c ∈ alternatives, x = c.1 ∨ x ∈ c.2.names) ∧
      ∀ {m : Type → Type} [Monad m] [MonadExceptOf RunFault m] {ν : Type} (host : Host m ν)
        (env : Env m ν),
        b.meaning host env = firstMatch (alternatives.map fun c => c.2.meaning host env) := by
  obtain ⟨a, rest, rfl⟩ := List.exists_cons_of_ne_nil hne
  obtain ⟨tries, htries, hnames, hmeaning⟩ :=
    exists_firstOf (.ref a.1) (rest.map fun c => .ref c.1)
  have hrefs : Expr.ref a.1 :: rest.map (fun c => Expr.ref c.1) =
      (a :: rest).map fun c => .ref c.1 := rfl
  have hblock (l : List Alternative) : l.foldr (fun a next => .define a.1 a.2 next) tries =
      tries.after (alternativeDefs l) := by
    rw [Block.after, alternativeDefs, List.foldr_map]
  refine ⟨tries.after (alternativeDefs (a :: rest)), ?_, ?_, ?_⟩
  · rw [← hblock, Block.alternatives, List.map_cons, htries]
    rfl
  · intro x hx
    rw [Block.names_after, hnames, hrefs, List.mem_append] at hx
    rcases hx with hx | hx
    · obtain ⟨d, hd, hx⟩ := List.mem_flatMap.mp hx
      obtain ⟨c, hc, rfl⟩ := List.mem_map.mp hd
      rcases List.mem_cons.mp hx with rfl | hx
      · exact ⟨c, hc, .inl rfl⟩
      · exact ⟨c, hc, .inr hx⟩
    · obtain ⟨e, he, hx⟩ := List.mem_flatMap.mp hx
      obtain ⟨c, hc, rfl⟩ := List.mem_map.mp he
      exact ⟨c, hc, .inl (List.mem_singleton.mp hx)⟩
  · intro m _ _ ν host env
    rw [Block.meaning_after, hmeaning, hrefs, List.map_map]
    congr 1
    apply List.map_congr_left
    intro c hc
    exact Expr.meaning_ref host (extend_alternatives host env h hc)

end TreeGrammar.Code
