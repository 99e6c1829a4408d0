import Mathlib.Data.List.Forall2
import TreeGrammar.Grammar.Written
import TreeGrammar.Proofs.Checking
import TreeGrammar.Proofs.Readable
import TreeGrammar.Proofs.Scanning

/-!
The constructor form of a body determines the body. It starts with its constructor, whose text no
other constructor starts with, and a quoted text ends where its mark is closed, whatever the text
holds; so a form that other text follows is read in one way only. The induction is on the body.
-/
namespace TreeGrammar

/-- No quoted text goes on as another one. -/
theorem Text.eq_of_quoted_eq_append {s t : String} {rest : List Char}
    (h : (quoted t).toList = (quoted s).toList ++ rest) : s = t ∧ rest = [] := by
  have hwhole := Script.leads_quoted t []
  have hpart := Script.leads_quoted s rest
  -- Both are read from the same characters, so the first token is the same.
  rw [List.append_nil, h, hpart] at hwhole
  obtain ⟨tokens, -, htokens⟩ := Option.map_eq_some_iff.mp
    (show (Script.scan .blank rest).map ([Script.Token.quoted s] ++ ·) = some [.quoted t] from
      hwhole)
  obtain ⟨hfirst, -⟩ := List.cons.inj htokens
  obtain rfl := Script.Token.quoted.inj hfirst
  exact ⟨rfl, List.self_eq_append_right.mp h⟩

/-- A quoted text is read in one way only, whatever follows. -/
theorem Text.quoted_append_inj {s t : String} {x y : List Char}
    (h : (quoted s).toList ++ x = (quoted t).toList ++ y) : s = t ∧ x = y := by
  rcases List.append_eq_append_iff.mp h with ⟨rest, ht, hx⟩ | ⟨rest, hs, hy⟩
  · obtain ⟨heq, rfl⟩ := eq_of_quoted_eq_append ht
    exact ⟨heq, hx⟩
  · obtain ⟨heq, rfl⟩ := eq_of_quoted_eq_append hs
    exact ⟨heq.symm, hy.symm⟩

theorem Label.IsText.literal_append_inj {a b : Label} (ha : a.IsText) (hb : b.IsText)
    {x y : List Char} (h : a.literal.toList ++ x = b.literal.toList ++ y) : a = b ∧ x = y := by
  obtain ⟨s, rfl⟩ := ha
  obtain ⟨t, rfl⟩ := hb
  obtain ⟨rfl, hxy⟩ := Text.quoted_append_inj h
  exact ⟨rfl, hxy⟩

/-- What a body is built with. -/
inductive Constructor where
  | symbol
  | literal
  | pattern
  | blank
  | star
  | plus
  | choice
  | seq
deriving DecidableEq

/-- What the form of a body starts with. -/
def Constructor.opening : Constructor → String
  | symbol => "Symbol("
  | literal => "String("
  | pattern => "Pattern("
  | blank => "Blank()"
  | star => "Repeat("
  | plus => "Repeat1("
  | choice => "Choice(["
  | seq => "Seq(["

theorem Constructor.opening_append_inj {c d : Constructor} {x y : List Char}
    (h : c.opening.toList ++ x = d.opening.toList ++ y) : c = d ∧ x = y := by
  cases c <;> cases d <;> simp [opening] at h ⊢ <;> exact h

namespace Body

def constructor : Body → Constructor
  | symbol _ => .symbol
  | literal _ => .literal
  | pattern _ => .pattern
  | blank => .blank
  | star _ => .star
  | plus _ => .plus
  | choice _ => .choice
  | seq _ => .seq

/-- The name of a symbol and the text of a token. -/
def label? : Body → Option Label
  | symbol label | literal label | pattern label => some label
  | blank | star _ | plus _ | choice _ | seq _ => none

mutual

/-- All names and tokens of a body are texts. -/
def InText : Body → Prop
  | symbol label | literal label | pattern label => label.IsText
  | blank => True
  | star body | plus body => InText body
  | choice bodies | seq bodies => AllInText bodies

def AllInText : List Body → Prop
  | [] => True
  | body :: rest => InText body ∧ AllInText rest

end

/-- The forms of some bodies, each after a comma. -/
def following (bodies : List Body) : List Char :=
  bodies.flatMap fun body => ", ".toList ++ body.written.toList

/-- The forms of some bodies with commas between them. -/
def between : List Body → List Char
  | [] => []
  | body :: rest => body.written.toList ++ following rest

theorem toList_intercalate_writtenList (bodies : List Body) :
    (", ".intercalate (writtenList bodies)).toList = between bodies := by
  cases bodies with
  | nil => rfl
  | cons body rest =>
    rw [writtenList, between]
    induction rest generalizing body with
    | nil => simp [writtenList, following]
    | cons next rest ih =>
      rw [writtenList, String.intercalate_cons_cons, String.toList_append, String.toList_append, ih]
      simp [following]

/-- What stands in the form of a body after its opening. -/
def inside : Body → List Char
  | symbol label | literal label | pattern label => label.literal.toList ++ [')']
  | blank => []
  | star body | plus body => body.written.toList ++ [')']
  | choice bodies | seq bodies => between bodies ++ [']', ')']

theorem toList_written (body : Body) :
    body.written.toList = body.constructor.opening.toList ++ body.inside := by
  cases body <;>
    simp [written, constructor, Constructor.opening, inside, ← toList_intercalate_writtenList]

theorem written_ne_closing (body : Body) (x y : List Char) :
    body.written.toList ++ x ≠ ']' :: y := by
  rw [toList_written]
  cases body <;> simp [constructor, Constructor.opening]

mutual

/-- The form of a body is read in one way only, whatever follows. -/
theorem written_append_inj {x y : List Char} : (a b : Body) → a.InText → b.InText →
    a.written.toList ++ x = b.written.toList ++ y → a = b ∧ x = y
  | a, b, ha, hb, h => by
    rw [toList_written, toList_written, List.append_assoc, List.append_assoc] at h
    obtain ⟨hsame, hinside⟩ := Constructor.opening_append_inj h
    -- Both have one opening, so only the cases in which both have one constructor are left.
    cases a <;> cases b <;> cases hsame
    case blank.blank.refl => exact ⟨rfl, hinside⟩
    case symbol.symbol.refl | literal.literal.refl | pattern.pattern.refl =>
      simp only [inside, List.append_assoc, List.singleton_append] at hinside
      obtain ⟨rfl, hrest⟩ := Label.IsText.literal_append_inj ha hb hinside
      exact ⟨rfl, List.tail_eq_of_cons_eq hrest⟩
    case star.star.refl a b | plus.plus.refl a b =>
      simp only [inside, List.append_assoc, List.singleton_append] at hinside
      obtain ⟨rfl, hrest⟩ := written_append_inj a b ha hb hinside
      exact ⟨rfl, List.tail_eq_of_cons_eq hrest⟩
    case choice.choice.refl as bs | seq.seq.refl as bs =>
      simp only [inside, List.append_assoc, List.cons_append, List.nil_append] at hinside
      obtain ⟨rfl, hrest⟩ := between_append_inj as bs ha hb hinside
      exact ⟨rfl, List.tail_eq_of_cons_eq hrest⟩

theorem between_append_inj {x y : List Char} : (as bs : List Body) → AllInText as →
    AllInText bs → between as ++ ']' :: x = between bs ++ ']' :: y → as = bs ∧ x = y
  | [], [], _, _, h => ⟨rfl, List.tail_eq_of_cons_eq h⟩
  -- A group that is closed at once has no body, as no form starts with the bracket.
  | [], b :: bs, _, _, h => by
    rw [between, between, List.append_assoc] at h
    exact absurd h.symm (written_ne_closing b _ _)
  | a :: as, [], _, _, h => by
    rw [between, between, List.append_assoc] at h
    exact absurd h (written_ne_closing a _ _)
  | a :: as, b :: bs, ha, hb, h => by
    rw [between, between, List.append_assoc, List.append_assoc] at h
    obtain ⟨rfl, hrest⟩ := written_append_inj a b ha.1 hb.1 h
    obtain ⟨rfl, hxy⟩ := following_append_inj as bs ha.2 hb.2 hrest
    exact ⟨rfl, hxy⟩

theorem following_append_inj {x y : List Char} : (as bs : List Body) → AllInText as →
    AllInText bs → following as ++ ']' :: x = following bs ++ ']' :: y → as = bs ∧ x = y
  | [], [], _, _, h => ⟨rfl, List.tail_eq_of_cons_eq h⟩
  -- Behind a body there is a comma if another one follows, and the bracket if none does.
  | [], b :: bs, _, _, h => by simp [following] at h
  | a :: as, [], _, _, h => by simp [following] at h
  | a :: as, b :: bs, ha, hb, h => by
    rw [following, following, List.flatMap_cons, List.flatMap_cons] at h
    simp only [List.append_assoc, List.append_cancel_left_eq] at h
    obtain ⟨rfl, hrest⟩ := written_append_inj a b ha.1 hb.1 h
    obtain ⟨rfl, hxy⟩ := following_append_inj as bs ha.2 hb.2 hrest
    exact ⟨rfl, hxy⟩

end

theorem written_inj {a b : Body} (ha : a.InText) (hb : b.InText) (h : a.written = b.written) :
    a = b := by
  apply And.left
  apply written_append_inj (x := []) (y := []) a b ha hb
  rw [h]

/-- A body is given by its constructor, its label and its parts. -/
theorem eq_iff_parts (a b : Body) :
    a = b ↔ a.constructor = b.constructor ∧ a.label? = b.label? ∧ a.parts = b.parts := by
  constructor
  · rintro rfl
    exact ⟨rfl, rfl, rfl⟩
  · rintro ⟨hsame, hlabel, hparts⟩
    cases a <;> cases b <;> cases hsame <;> simp_all [label?, parts]

/-- Two bodies are the same if they are built with the same constructor from the same label and
parts that are the same, in the same order. -/
theorem same_iff_parts (a b : Body) :
    a.same b = true ↔ a.constructor = b.constructor ∧ a.label? = b.label? ∧
      List.Forall₂ (fun p q => p.same q = true) a.parts b.parts := by
  simp only [same_iff, List.forall₂_eq_eq_eq]
  exact eq_iff_parts a b

end Body

namespace Rule

/-- The name of a rule and all labels of its body are texts. -/
def InText (rule : Rule) : Prop :=
  rule.name.IsText ∧ rule.body.InText

theorem toList_written (rule : Rule) :
    rule.written.toList =
      "Rule(".toList ++ (rule.name.literal.toList ++
        (", ".toList ++ (rule.body.written.toList ++ ")".toList))) := by
  simp [written]

theorem written_inj {r s : Rule} (hr : r.InText) (hs : s.InText) (h : r.written = s.written) :
    r = s := by
  have hlist := congrArg String.toList h
  rw [toList_written, toList_written, List.append_cancel_left_eq] at hlist
  obtain ⟨hname, hrest⟩ := Label.IsText.literal_append_inj hr.1 hs.1 hlist
  rw [List.append_cancel_left_eq] at hrest
  obtain ⟨hbody, -⟩ := Body.written_append_inj r.body s.body hr.2 hs.2 hrest
  cases r
  cases s
  exact congrArg₂ Rule.mk hname hbody

end Rule

/-- The constructor form of bodies and of rules tells them apart, and no more than that. -/
theorem written_identifies :
    (∀ s t : String, Text.quoted s = Text.quoted t ↔ s = t) ∧
    (∀ a b : Body, a.InText → b.InText → (a.written = b.written ↔ a.same b = true)) ∧
    (∀ a b : Body, a.same b = true ↔ a.constructor = b.constructor ∧ a.label? = b.label? ∧
      List.Forall₂ (fun p q => p.same q = true) a.parts b.parts) ∧
    (∀ r s : Rule, r.InText → s.InText → (r.written = s.written ↔ r = s)) ∧
    ∀ r s : Rule, r = s ↔ r.name = s.name ∧ r.body.same s.body = true := by
  refine ⟨fun s t => ⟨fun h => ?_, congrArg _⟩, fun a b ha hb => ?_, Body.same_iff_parts,
    fun r s hr hs => ⟨Rule.written_inj hr hs, congrArg _⟩, fun r s => ?_⟩
  · exact (Text.quoted_append_inj (x := []) (y := []) (by rw [h])).1
  · rw [Body.same_iff]
    exact ⟨Body.written_inj ha hb, congrArg _⟩
  · rw [Body.same_iff, Rule.mk.injEq]

/-- A token that holds what stands between two tokens makes a different form. -/
theorem written_delimiters_in_token :
    let one := Body.seq [.literal "a'), String('b"]
    let two := Body.seq [.literal "a", .literal "b"]
    one.InText ∧ two.InText ∧ one.same two = false ∧ one.written ≠ two.written ∧
      (Rule.mk "r" one).written ≠ (Rule.mk "r" two).written := by
  intro one two
  have hone : one.InText := ⟨⟨_, rfl⟩, trivial⟩
  have htwo : two.InText := ⟨⟨_, rfl⟩, ⟨_, rfl⟩, trivial⟩
  have hname : Label.IsText "r" := ⟨_, rfl⟩
  have hsame : one.same two = false := by decide
  obtain ⟨-, hbodies, -, hrules, hparts⟩ := written_identifies
  refine ⟨hone, htwo, hsame, fun h => ?_, fun h => ?_⟩
  · exact absurd ((hbodies one two hone htwo).mp h) (by simp [hsame])
  · have heq := (hrules ⟨"r", one⟩ ⟨"r", two⟩ ⟨hname, hone⟩ ⟨hname, htwo⟩).mp h
    exact absurd ((hparts _ _).mp heq).2 (by simp [hsame])

end TreeGrammar
