import TreeGrammar.Grammar.Convert

/-!
Inlining. Rules that make no node of their own are replaced by their bodies wherever they are
referred to, and so are the references in these bodies. A rule that would be replaced inside its
own body cannot be inlined.
-/
namespace TreeGrammar

namespace Body

variable {m : Type → Type} [Monad m]

mutual

/-- A body with every symbol replaced by what `f` gives for its name, from left to right. -/
def bindSymbols (f : Label → m Body) : Body → m Body
  | symbol name => f name
  | literal text => pure (literal text)
  | pattern text => pure (pattern text)
  | blank => pure blank
  | star body => do pure (star (← bindSymbols f body))
  | plus body => do pure (plus (← bindSymbols f body))
  | choice bodies => do pure (choice (← bindSymbolsIn f bodies))
  | seq bodies => do pure (seq (← bindSymbolsIn f bodies))

def bindSymbolsIn (f : Label → m Body) : List Body → m (List Body)
  | [] => pure []
  | body :: rest => do
    let body ← bindSymbols f body
    let rest ← bindSymbolsIn f rest
    pure (body :: rest)

end

end Body

namespace Description

/-- The bodies without that of the given name. -/
def Bodies.without (bodies : Bodies) (name : Label) : Bodies :=
  bodies.filter fun entry => !entry.1.alike name

def Bodies.find (bodies : Bodies) (name : Label) : Option (Label × Body) :=
  List.find? (fun entry => entry.1.alike name) bodies

theorem Bodies.length_without_lt {bodies : Bodies} {name : Label} {entry : Label × Body}
    (h : bodies.find name = some entry) : (bodies.without name).length < bodies.length := by
  have hm : entry ∈ bodies := List.mem_of_find?_eq_some h
  have hn : entry.1.alike name = true := by simpa using List.find?_some h
  unfold Bodies.without
  induction bodies with
  | nil => cases hm
  | cons e es ih =>
    by_cases he : e.1.alike name = true
    · have hle := List.length_filter_le (fun x : Label × Body => !x.1.alike name) es
      simp only [List.filter_cons, he, Bool.not_true, Bool.false_eq_true, ↓reduceIte,
        List.length_cons]
      omega
    · rcases List.mem_cons.mp hm with rfl | hm
      · exact absurd hn he
      · have hf : Bodies.find es name = some entry := by
          simpa [Bodies.find, List.find?_cons, he] using h
        have := ih hf hm
        simp only [List.filter_cons, he, Bool.not_false, ↓reduceIte, List.length_cons]
        omega

/-- What a reference to a name becomes. `hidden` are the bodies of the rules to inline that are not
being inlined already, `chain` the names of those that are, which are texts. -/
def expand (hidden : Bodies) (chain : List String) : Label → Except LoadError Body
  | .str name =>
    match _h : hidden.find (.str name) with
    | some (_, body) => body.bindSymbols (expand (hidden.without (.str name)) (chain ++ [name]))
    | none =>
      if name ∈ chain then .error (.grammar (.recursiveInlining (chain ++ [name])))
      else .ok (.symbol (.str name))
  | label => do pure (.symbol (← scalar label))
termination_by hidden.length
decreasing_by exact Bodies.length_without_lt _h

/-- A body with the given rules inlined. -/
def inlineIn (hidden : Bodies) (body : Body) : Except LoadError Body :=
  body.bindSymbols (expand hidden [])

end Description

end TreeGrammar
