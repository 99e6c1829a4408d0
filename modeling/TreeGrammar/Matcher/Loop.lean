import TreeGrammar.Matcher.Basic

/-!
Repetitions as a loop over frames. A frame is an element that is being tried: where its slice starts
and where it ends next. A round tries the slice of the innermost frame, or, where that cannot be
made longer, the tail, and gives the frame up if the tail fails. The offsets of frames that are
given up are kept. The loop stops when its rounds are used up, whatever is left to try.
-/
namespace TreeGrammar.Matcher

/-- An element that is tried: the start of its slice and the end that is tried next. -/
structure Frame where
  start : Nat
  finish : Nat
deriving DecidableEq

/-- The frames, innermost first, the values of the elements before, last one first, and the starts
of the frames that were given up. -/
structure Loop where
  frames : List Frame
  values : List Value
  dead : List Nat

/-- A loop before its first round. -/
def Loop.initial : Loop := ⟨[⟨0, 1⟩], [], []⟩

/-- The nodes from one offset up to another one. -/
def slice {ν : Type} (nodes : List ν) (start finish : Nat) : List ν :=
  (nodes.drop start).take (finish - start)

variable {m : Type → Type} [Monad m] {ν : Type}

/-- Goes on for the given number of rounds. -/
def Loop.run (element tail : Matcher (OptionT m) ν) (least : Nat) (nodes : List ν) :
    Nat → Loop → OptionT m (Match ν)
  | 0, _ => failure
  | _ + 1, ⟨[], _, _⟩ => pure none
  | rounds + 1, ⟨⟨start, finish⟩ :: outer, values, dead⟩ =>
    let longer : Frame := ⟨start, finish + 1⟩
    if finish ≤ nodes.length then
      if finish ∈ dead then run element tail least nodes rounds ⟨longer :: outer, values, dead⟩
      else do
        match ← element (slice nodes start finish) with
        | some (v, []) =>
          run element tail least nodes rounds
            ⟨⟨finish, finish + 1⟩ :: longer :: outer, v :: values, dead⟩
        | _ => run element tail least nodes rounds ⟨longer :: outer, values, dead⟩
    else if least ≤ values.length then do
      match ← tail (nodes.drop start) with
      | some (v, rest) => pure (some (.pair (.list values.reverse) v, rest))
      | none => run element tail least nodes rounds ⟨outer, values.tail, start :: dead⟩
    else run element tail least nodes rounds ⟨outer, values.tail, start :: dead⟩

/-- At least `least` elements, then the tail, in as many rounds as are given for the count of
nodes. -/
def repetitionWithin (rounds : Nat → Nat) (least : Nat) (element tail : Matcher (OptionT m) ν) :
    Matcher (OptionT m) ν :=
  fun nodes => Loop.run element tail least nodes (rounds nodes.length) .initial

end TreeGrammar.Matcher
