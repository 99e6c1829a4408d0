import TreeGrammar.Grammar.Inlining
import TreeGrammar.Proofs.Results

/-!
Substitution in bodies. A body whose symbols are replaced has the results of the body itself if
what replaces a symbol has the results of the symbol.
-/
namespace TreeGrammar

theorem exists_of_bind_eq_ok {ε α β : Type} {x : Except ε α} {f : α → Except ε β} {b : β}
    (h : (x >>= f) = .ok b) : ∃ a, x = .ok a ∧ f a = .ok b := by
  cases x with
  | error e => cases h
  | ok a => exact ⟨a, rfl, h⟩

theorem error_or_exists_of_bind_eq_error {ε α β : Type} {x : Except ε α} {f : α → Except ε β}
    {e : ε} (h : (x >>= f) = .error e) : x = .error e ∨ ∃ a, x = .ok a ∧ f a = .error e := by
  cases x with
  | ok a => exact .inr ⟨a, rfl, h⟩
  | error other =>
    cases h
    exact .inl rfl

open Description

section
variable {ν : Type}

/-- What symbols are replaced by has the results of the symbols. -/
structure Replaces (f : Label → Except LoadError Body) (inner read : Reading ν) : Prop where
  kind : inner.kind = read.kind
  leaf : inner.leaf = read.leaf
  call : ∀ name body, f name = .ok body → ∀ nodes,
    body.results read nodes = inner.call name nodes

variable {f : Label → Except LoadError Body} {inner read : Reading ν}

theorem Replaces.leafOf (h : Replaces f inner read) (text : Label) (nodes : List ν) :
    inner.leafOf text nodes = read.leafOf text nodes := by
  cases nodes with
  | nil => rfl
  | cons n rest => rw [Reading.leafOf, Reading.leafOf, h.kind, h.leaf]

namespace Body

mutual

/-- A body with its symbols replaced has the results that the body has where symbols have the
results of what replaces them. -/
theorem results_of_bindSymbols (h : Replaces f inner read) : (body : Body) → {body' : Body} →
    body.bindSymbols f = .ok body' → body'.results read = body.results inner
  | symbol name, body', hb => by
    funext nodes
    rw [results]
    exact h.call name body' hb nodes
  | literal text, _, hb | pattern text, _, hb => by
    cases hb
    funext nodes
    rw [results, results, h.leafOf]
  | blank, _, hb => by
    cases hb
    funext nodes
    rw [results, results]
  | star body, _, hb => by
    obtain ⟨element, he, hb⟩ := exists_of_bind_eq_ok hb
    cases hb
    have hresults := results_of_bindSymbols h body he
    funext nodes
    rw [results, results, hresults]
  | plus body, _, hb => by
    obtain ⟨element, he, hb⟩ := exists_of_bind_eq_ok hb
    cases hb
    have hresults := results_of_bindSymbols h body he
    funext nodes
    rw [results, results, hresults]
  | choice bodies, _, hb => by
    obtain ⟨alternatives, hc, hb⟩ := exists_of_bind_eq_ok hb
    cases hb
    funext nodes
    rw [results, results, resultsOfCases_of_bindSymbolsIn h bodies hc]
  | seq bodies, _, hb => by
    obtain ⟨elements, he, hb⟩ := exists_of_bind_eq_ok hb
    cases hb
    funext nodes
    rw [results, results, resultsOfAll_of_bindSymbolsIn h bodies he]

theorem resultsOfAll_of_bindSymbolsIn (h : Replaces f inner read) : (bodies : List Body) →
    {bodies' : List Body} → bindSymbolsIn f bodies = .ok bodies' →
      resultsOfAll read bodies' = resultsOfAll inner bodies
  | [], _, hb => by
    cases hb
    funext nodes
    rw [resultsOfAll, resultsOfAll]
  | body :: rest, _, hb => by
    obtain ⟨first, hf, hb⟩ := exists_of_bind_eq_ok hb
    obtain ⟨others, ho, hb⟩ := exists_of_bind_eq_ok hb
    cases hb
    funext nodes
    rw [resultsOfAll, resultsOfAll, results_of_bindSymbols h body hf,
      resultsOfAll_of_bindSymbolsIn h rest ho]

theorem resultsOfCases_of_bindSymbolsIn (h : Replaces f inner read) : (bodies : List Body) →
    {bodies' : List Body} → bindSymbolsIn f bodies = .ok bodies' →
      ∀ index, resultsOfCases read index bodies' = resultsOfCases inner index bodies
  | [], _, hb, index => by
    cases hb
    funext nodes
    rw [resultsOfCases, resultsOfCases]
  | body :: rest, _, hb, index => by
    obtain ⟨first, hf, hb⟩ := exists_of_bind_eq_ok hb
    obtain ⟨others, ho, hb⟩ := exists_of_bind_eq_ok hb
    cases hb
    funext nodes
    rw [resultsOfCases, resultsOfCases, results_of_bindSymbols h body hf,
      resultsOfCases_of_bindSymbolsIn h rest ho]

end

mutual

/-- The symbols of a body whose symbols are replaced are those of what replaces them. -/
theorem exists_of_mem_symbols_bindSymbols {name : Label} : (body : Body) → {body' : Body} →
    body.bindSymbols f = .ok body' → name ∈ body'.symbols →
      ∃ source part, f source = .ok part ∧ name ∈ part.symbols
  | symbol source, body', hb, hn => ⟨source, body', hb, hn⟩
  | literal _, _, hb, hn | pattern _, _, hb, hn | blank, _, hb, hn => by
    cases hb
    cases hn
  | star body, _, hb, hn | plus body, _, hb, hn => by
    obtain ⟨element, he, hb⟩ := exists_of_bind_eq_ok hb
    cases hb
    exact exists_of_mem_symbols_bindSymbols body he hn
  | choice bodies, _, hb, hn | seq bodies, _, hb, hn => by
    obtain ⟨parts, hp, hb⟩ := exists_of_bind_eq_ok hb
    cases hb
    exact exists_of_mem_symbolsOf_bindSymbolsIn bodies hp hn

theorem exists_of_mem_symbolsOf_bindSymbolsIn {name : Label} : (bodies : List Body) →
    {bodies' : List Body} → bindSymbolsIn f bodies = .ok bodies' → name ∈ symbolsOf bodies' →
      ∃ source part, f source = .ok part ∧ name ∈ part.symbols
  | [], _, hb, hn => by
    cases hb
    cases hn
  | body :: rest, _, hb, hn => by
    obtain ⟨first, hf, hb⟩ := exists_of_bind_eq_ok hb
    obtain ⟨others, ho, hb⟩ := exists_of_bind_eq_ok hb
    cases hb
    rcases List.mem_append.mp hn with hn | hn
    · exact exists_of_mem_symbols_bindSymbols body hf hn
    · exact exists_of_mem_symbolsOf_bindSymbolsIn rest ho hn

end

mutual

/-- A body whose symbols stand for themselves is left as it is. -/
theorem bindSymbols_eq_self : (body : Body) →
    (∀ name ∈ body.symbols, f name = .ok (.symbol name)) → body.bindSymbols f = .ok body
  | symbol name, h => h name (List.mem_singleton_self name)
  | literal _, _ | pattern _, _ | blank, _ => rfl
  | star body, h | plus body, h => by
    have hbody := bindSymbols_eq_self body h
    rw [bindSymbols, hbody]
    rfl
  | choice bodies, h | seq bodies, h => by
    have hbodies := bindSymbolsIn_eq_self bodies h
    rw [bindSymbols, hbodies]
    rfl

theorem bindSymbolsIn_eq_self : (bodies : List Body) →
    (∀ name ∈ symbolsOf bodies, f name = .ok (.symbol name)) → bindSymbolsIn f bodies = .ok bodies
  | [], _ => rfl
  | body :: rest, h => by
    have hbody := bindSymbols_eq_self body fun name hn => h name (List.mem_append_left _ hn)
    have hrest := bindSymbolsIn_eq_self rest fun name hn => h name (List.mem_append_right _ hn)
    rw [bindSymbolsIn, hbody, hrest]
    rfl

end

mutual

/-- All symbols of a body are replaced where the body has its symbols replaced. -/
theorem exists_part_of_bindSymbols : (body : Body) → {body' : Body} →
    body.bindSymbols f = .ok body' → ∀ name ∈ body.symbols, ∃ part, f name = .ok part
  | symbol _, body', hb, name, hn => by
    rw [List.mem_singleton.mp hn]
    exact ⟨body', hb⟩
  | literal _, _, _, _, hn | pattern _, _, _, _, hn | blank, _, _, _, hn => by
    cases hn
  | star body, _, hb, name, hn | plus body, _, hb, name, hn => by
    obtain ⟨_, he, -⟩ := exists_of_bind_eq_ok hb
    exact exists_part_of_bindSymbols body he name hn
  | choice bodies, _, hb, name, hn | seq bodies, _, hb, name, hn => by
    obtain ⟨_, hp, -⟩ := exists_of_bind_eq_ok hb
    exact exists_part_of_bindSymbolsIn bodies hp name hn

theorem exists_part_of_bindSymbolsIn : (bodies : List Body) → {bodies' : List Body} →
    bindSymbolsIn f bodies = .ok bodies' → ∀ name ∈ symbolsOf bodies, ∃ part, f name = .ok part
  | [], _, _, _, hn => by
    cases hn
  | body :: rest, _, hb, name, hn => by
    obtain ⟨_, hf, hb⟩ := exists_of_bind_eq_ok hb
    obtain ⟨_, ho, -⟩ := exists_of_bind_eq_ok hb
    rcases List.mem_append.mp hn with hn | hn
    · exact exists_part_of_bindSymbols body hf name hn
    · exact exists_part_of_bindSymbolsIn rest ho name hn

end

mutual

/-- Where a body cannot have its symbols replaced, one of them cannot be replaced. -/
theorem exists_symbol_of_bindSymbols_eq_error {e : LoadError} : (body : Body) →
    body.bindSymbols f = .error e → ∃ name ∈ body.symbols, f name = .error e
  | symbol name, h => ⟨name, List.mem_singleton_self name, h⟩
  | literal _, h | pattern _, h | blank, h => by
    cases h
  | star body, h | plus body, h => by
    rcases error_or_exists_of_bind_eq_error h with h | ⟨_, -, h⟩
    · exact exists_symbol_of_bindSymbols_eq_error body h
    · cases h
  | choice bodies, h | seq bodies, h => by
    rcases error_or_exists_of_bind_eq_error h with h | ⟨_, -, h⟩
    · exact exists_symbol_of_bindSymbolsIn_eq_error bodies h
    · cases h

theorem exists_symbol_of_bindSymbolsIn_eq_error {e : LoadError} : (bodies : List Body) →
    bindSymbolsIn f bodies = .error e → ∃ name ∈ symbolsOf bodies, f name = .error e
  | [], h => by
    cases h
  | body :: rest, h => by
    rw [symbolsOf]
    rcases error_or_exists_of_bind_eq_error h with h | ⟨_, -, h⟩
    · obtain ⟨name, hn, h⟩ := exists_symbol_of_bindSymbols_eq_error body h
      exact ⟨name, List.mem_append_left _ hn, h⟩
    rcases error_or_exists_of_bind_eq_error h with h | ⟨_, -, h⟩
    · obtain ⟨name, hn, h⟩ := exists_symbol_of_bindSymbolsIn_eq_error rest h
      exact ⟨name, List.mem_append_right _ hn, h⟩
    · cases h

end

end Body

end

end TreeGrammar
