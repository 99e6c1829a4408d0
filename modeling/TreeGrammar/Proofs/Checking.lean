import TreeGrammar.Proofs.Hygiene

/-!
What the check of a grammar looks for. It goes through the parts of bodies at any depth, and it
reports a fault exactly where a part is an empty group or a symbol that is no rule, or where the
entrypoint is no rule.
-/
namespace TreeGrammar

namespace Body

/-- The bodies that a body is made of. -/
def parts : Body → List Body
  | symbol _ | literal _ | pattern _ | blank => []
  | star body | plus body => [body]
  | choice bodies | seq bodies => bodies

/-- The second body stands in the first one, at any depth; a body stands in itself. -/
inductive Contains : Body → Body → Prop
  | self (body : Body) : Contains body body
  | inside {whole body part : Body} :
    body ∈ whole.parts → Contains body part → Contains whole part

/-- A part that cannot be compiled: a symbol that is none of the names, or an empty group. -/
inductive Bad (names : List Label) : Body → Prop
  | symbol {name : Label} : ¬ Label.isAmong names name → Bad names (.symbol name)
  | choice : Bad names (.choice [])
  | seq : Bad names (.seq [])

/-- A part of the body cannot be compiled. -/
def Faulty (names : List Label) (body : Body) : Prop :=
  ∃ part, body.Contains part ∧ Bad names part

variable {names : List Label}

theorem faulty_iff {body : Body} :
    body.Faulty names ↔ Bad names body ∨ ∃ inner ∈ body.parts, inner.Faulty names := by
  constructor
  · rintro ⟨part, hc, hb⟩
    cases hc with
    | self => exact .inl hb
    | inside hm hc => exact .inr ⟨_, hm, part, hc, hb⟩
  · rintro (hb | ⟨inner, hm, part, hc, hb⟩)
    · exact ⟨body, .self body, hb⟩
    · exact ⟨part, .inside hm hc, hb⟩

/-- A group is bad where it is empty. -/
theorem bad_group {bodies : List Body} {group : List Body → Body}
    (hg : group = choice ∨ group = seq) : Bad names (group bodies) ↔ bodies = [] := by
  rcases hg with rfl | rfl
  · exact ⟨fun hb => (by cases hb; rfl), fun h => h ▸ .choice⟩
  · exact ⟨fun hb => (by cases hb; rfl), fun h => h ▸ .seq⟩

mutual

/-- A fault is reported exactly where there is one. -/
theorem fault_isSome_iff {rule : Label} : (body : Body) →
    ((fault names rule body).isSome ↔ body.Faulty names)
  | symbol name => by
    have hbad : Bad names (symbol name) ↔ ¬ Label.isAmong names name :=
      ⟨fun hb => (by cases hb; assumption), .symbol⟩
    rw [faulty_iff, hbad]
    simp [parts, fault]
  | literal _ | pattern _ | blank => by
    rw [faulty_iff, fault, parts]
    refine ⟨fun h => (by cases h), ?_⟩
    rintro (hb | ⟨_, hm, -⟩)
    · cases hb
    · cases hm
  | star body | plus body => by
    rw [faulty_iff, fault, fault_isSome_iff body, parts]
    constructor
    · exact fun h => .inr ⟨body, List.mem_singleton_self body, h⟩
    · rintro (hb | ⟨inner, hm, h⟩)
      · cases hb
      · exact List.mem_singleton.mp hm ▸ h
  | choice [] | seq [] => by
    rw [faulty_iff, bad_group (by simp)]
    simp [fault]
  | choice (body :: rest) | seq (body :: rest) => by
    rw [faulty_iff, bad_group (by simp)]
    simp [parts, fault, fault_isSome_iff body, faultIn_isSome_iff rest]

theorem faultIn_isSome_iff {rule : Label} : (bodies : List Body) →
    ((faultIn names rule bodies).isSome ↔ ∃ body ∈ bodies, body.Faulty names)
  | [] => by simp [faultIn]
  | body :: rest => by simp [faultIn, fault_isSome_iff body, faultIn_isSome_iff rest]

end

mutual

/-- What the code of a body asks for a rule stands in the body as a symbol. -/
theorem contains_of_mem_items {name : Label} : (body : Body) → .rule name ∈ body.items →
    body.Contains (.symbol name)
  | symbol other, h => by
    rw [items, List.mem_singleton] at h
    cases h
    exact .self _
  | literal _, h | pattern _, h => by
    rw [items, List.mem_singleton] at h
    cases h
  | blank, h => by
    rw [items] at h
    cases h
  | star body, h | plus body, h => by
    rw [items, List.mem_cons] at h
    exact .inside List.mem_cons_self (contains_of_mem_items body (h.resolve_left (by simp)))
  | choice bodies, h | seq bodies, h => by
    rw [items] at h
    obtain ⟨body, hm, hc⟩ := contains_of_mem_itemsOf bodies h
    exact .inside hm hc

theorem contains_of_mem_itemsOf {name : Label} : (bodies : List Body) →
    .rule name ∈ itemsOf bodies → ∃ body ∈ bodies, body.Contains (.symbol name)
  | [], h => by
    rw [itemsOf] at h
    cases h
  | body :: rest, h => by
    rw [itemsOf, List.mem_append] at h
    rcases h with h | h
    · exact ⟨body, List.mem_cons_self, contains_of_mem_items body h⟩
    · obtain ⟨other, hm, hc⟩ := contains_of_mem_itemsOf rest h
      exact ⟨other, List.mem_cons_of_mem body hm, hc⟩

end

end Body

namespace Grammar

/-- The entrypoint or a part of the body of a rule keeps the grammar from being compiled. -/
def Faulty (g : Grammar) : Prop :=
  ¬ Label.isAmong g.names g.entrypoint ∨ ∃ rule ∈ g.rules, rule.body.Faulty g.names

theorem fault_isSome_iff (g : Grammar) : g.fault.isSome ↔ g.Faulty := by
  rw [fault, Faulty]
  split
  · rename_i he
    rw [List.findSome?_isSome_iff]
    constructor
    · rintro ⟨rule, hr, hf⟩
      exact .inr ⟨rule, hr, rule.body.fault_isSome_iff.mp hf⟩
    · rintro (hno | ⟨rule, hr, hf⟩)
      · exact absurd he hno
      · exact ⟨rule, hr, rule.body.fault_isSome_iff.mpr hf⟩
  · rename_i he
    exact ⟨fun _ => .inl he, fun _ => rfl⟩

theorem exists_check_error_iff (g : Grammar) : (∃ e, g.check = .error e) ↔ g.Faulty := by
  rw [← fault_isSome_iff, check]
  cases g.fault with
  | none => exact ⟨fun ⟨_, h⟩ => (by cases h), fun h => (by cases h)⟩
  | some e => exact ⟨fun _ => rfl, fun _ => ⟨e, rfl⟩⟩

end Grammar

end TreeGrammar
