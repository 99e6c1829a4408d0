import TreeGrammar.Json.Canonical
import TreeGrammar.Json.Literal

/-!
Labels: what stands in a grammar and in a tree where a name, a kind or the text of a token belongs.
That is a text as a rule, but a description is not bound to it, and whatever value it has there is
kept. Labels count as equal if they are alike.
-/
namespace TreeGrammar

/-- A name, a kind or a text, as it is given. -/
abbrev Label := Json

instance : Coe String Label := ⟨Json.str⟩

/-- Whether a label is like one of the given ones. -/
def Label.isAmong (labels : List Label) (label : Label) : Bool :=
  labels.any label.alike

theorem Label.isAmong_iff (labels : List Label) (label : Label) :
    Label.isAmong labels label = true ↔ label.canonical ∈ labels.map Json.canonical := by
  simp only [Label.isAmong, List.any_eq_true, Json.alike_iff, List.mem_map]
  exact exists_congr fun other => and_congr_right fun _ => eq_comm

end TreeGrammar
