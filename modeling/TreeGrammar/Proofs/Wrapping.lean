import TreeGrammar.Proofs.Closure

/-!
Wrappers have no effect. Wrappers for precedence, tokens, fields and reserved words may be put
around any of the bodies that a description is made of, in any number and in one another: each body
is converted to what it was converted to before, and the same aliases are recorded in the same
order, so the same grammar is loaded, or loading fails in the same way.
-/
namespace TreeGrammar

open Description

namespace Description

mutual

/-- The second value is the first one with wrappers around any of the bodies in it. -/
inductive Wrapped : Json → Json → Prop
  | same (value : Json) : Wrapped value value
  /-- A wrapper around the whole value. What else the wrapper says does not matter. -/
  | around {value content : Json} {members : List (String × Json)} {kind : String} :
    Json.member "type" members = some (.str kind) → isTransparent kind →
      Json.member "content" members = some content → Wrapped value content →
        Wrapped value (.obj members)
  /-- Wrappers around the parts of a body. -/
  | inside {members wrapped : List (String × Json)} : WrappedMembers members wrapped →
    Wrapped (.obj members) (.obj wrapped)

/-- The second members are the first ones with wrappers in what is a content or a list of parts. -/
inductive WrappedMembers : List (String × Json) → List (String × Json) → Prop
  | nil : WrappedMembers [] []
  | keep (entry : String × Json) {rest wrappedRest : List (String × Json)} :
    WrappedMembers rest wrappedRest → WrappedMembers (entry :: rest) (entry :: wrappedRest)
  | content {value wrapped : Json} {rest wrappedRest : List (String × Json)} :
    Wrapped value wrapped → WrappedMembers rest wrappedRest →
      WrappedMembers (("content", value) :: rest) (("content", wrapped) :: wrappedRest)
  | parts {values wrapped : List Json} {rest wrappedRest : List (String × Json)} :
    WrappedAll values wrapped → WrappedMembers rest wrappedRest →
      WrappedMembers (("members", .arr values) :: rest) (("members", .arr wrapped) :: wrappedRest)

inductive WrappedAll : List Json → List Json → Prop
  | nil : WrappedAll [] []
  | cons {value wrapped : Json} {rest wrappedRest : List Json} :
    Wrapped value wrapped → WrappedAll rest wrappedRest →
      WrappedAll (value :: rest) (wrapped :: wrappedRest)

end

/-- All other members stay. -/
theorem WrappedMembers.member_eq {name : String} (hcontent : name ≠ "content")
    (hparts : name ≠ "members") {members wrapped : List (String × Json)}
    (h : WrappedMembers members wrapped) : Json.member name wrapped = Json.member name members := by
  induction members generalizing wrapped with
  | nil =>
    cases h
    rfl
  | cons entry rest ih =>
    cases h with
    | keep _ h => rw [Json.member, Json.member, ih h]
    | content _ h =>
      rw [Json.member, Json.member, if_neg hcontent.symm, if_neg hcontent.symm, ih h]
    | parts _ h =>
      rw [Json.member, Json.member, if_neg hparts.symm, if_neg hparts.symm, ih h]

theorem contentOf_eq_convert {members : List (String × Json)} {content : Json}
    (h : Json.member "content" members = some content) : contentOf members = convert content := by
  induction members with
  | nil => cases h
  | cons entry members ih =>
    obtain ⟨name, value⟩ := entry
    rw [Json.member] at h
    rw [contentOf]
    split at h
    · rename_i hname
      rw [if_pos hname, Option.some.inj h]
    · rename_i hname
      rw [if_neg hname, ih h]

/-- How an object is converted depends on few of its members. -/
theorem convert_congr {members wrapped : List (String × Json)}
    (hmember : ∀ name, name ≠ "content" → name ≠ "members" →
      Json.member name wrapped = Json.member name members)
    (hcontent : contentOf wrapped = contentOf members)
    (hparts : membersOf wrapped = membersOf members) :
    convert (.obj wrapped) = convert (.obj members) := by
  have hneeded (name : String) (hc : name ≠ "content") (hm : name ≠ "members") :
      needed name wrapped = needed name members := by
    rw [needed, needed, hmember name hc hm]
  rw [convert, convert, hmember "type" (by decide) (by decide),
    hneeded "name" (by decide) (by decide), hneeded "named" (by decide) (by decide),
    hneeded "value" (by decide) (by decide), hcontent, hparts]

mutual

theorem Wrapped.convert_eq : {value wrapped : Json} → Wrapped value wrapped →
    convert wrapped = convert value
  | _, _, .same _ => rfl
  | _, _, .around htype hkind hcontent h => by
    rw [convert_wrapper htype hkind, contentOf_eq_convert hcontent, h.convert_eq]
  | _, _, .inside h =>
    convert_congr (fun _ hc hp => h.member_eq hc hp) h.contentOf_eq h.membersOf_eq

theorem WrappedMembers.contentOf_eq : {members wrapped : List (String × Json)} →
    WrappedMembers members wrapped → contentOf wrapped = contentOf members
  | _, _, .nil => rfl
  | _, _, .keep (name, value) h => by
    rw [contentOf, contentOf, h.contentOf_eq]
  | _, _, .content h _ => by
    rw [contentOf, contentOf, if_pos rfl, if_pos rfl, h.convert_eq]
  | _, _, .parts _ h => by
    rw [contentOf, contentOf, if_neg (by decide), if_neg (by decide), h.contentOf_eq]

theorem WrappedMembers.membersOf_eq : {members wrapped : List (String × Json)} →
    WrappedMembers members wrapped → membersOf wrapped = membersOf members
  | _, _, .nil => rfl
  | _, _, .keep (name, value) h => by
    rw [membersOf, membersOf, h.membersOf_eq]
  | _, _, .content _ h => by
    rw [membersOf, membersOf, if_neg (by decide), if_neg (by decide), h.membersOf_eq]
  | _, _, .parts h _ => by
    rw [membersOf, membersOf, if_pos rfl, if_pos rfl, convertGroup, convertGroup,
      h.convertAll_eq]

theorem WrappedAll.convertAll_eq : {values wrapped : List Json} → WrappedAll values wrapped →
    convertAll wrapped = convertAll values
  | _, _, .nil => rfl
  | _, _, .cons h hrest => by
    rw [convertAll, convertAll, h.convert_eq, hrest.convertAll_eq]

end

/-- The second rules are the first ones with wrappers around bodies in them. -/
def WrappedRules (rules wrapped : List (String × Json)) : Prop :=
  List.Forall₂ (fun rule other => other.1 = rule.1 ∧ Wrapped rule.2 other.2) rules wrapped

theorem WrappedRules.convertRules_eq {rules wrapped : List (String × Json)}
    (h : WrappedRules rules wrapped) : convertRules wrapped = convertRules rules := by
  induction h with
  | nil => rfl
  | cons hrule _ ih => rw [convertRules, convertRules, ih, hrule.1, hrule.2.convert_eq]

/-- The second description is the first one with wrappers around bodies in its rules. -/
structure WrappedDescription (members wrapped : List (String × Json)) : Prop where
  rules : ∃ before after, Json.member "rules" members = some (.obj before) ∧
    Json.member "rules" wrapped = some (.obj after) ∧ WrappedRules before after
  others : ∀ name, name ≠ "rules" → Json.member name wrapped = Json.member name members

section
variable {members wrapped : List (String × Json)}

theorem WrappedDescription.itemsOf_eq (h : WrappedDescription members wrapped) (name : String)
    (hname : name ≠ "rules") : itemsOf name wrapped = itemsOf name members := by
  rw [itemsOf, itemsOf, h.others name hname]

theorem WrappedDescription.draftOf_eq (h : WrappedDescription members wrapped) :
    draftOf wrapped = draftOf members := by
  obtain ⟨before, after, hbefore, hafter, hrules⟩ := h.rules
  rw [draftOf, draftOf, needed_eq_ok.mpr hbefore, needed_eq_ok.mpr hafter,
    h.itemsOf_eq "externals" (by decide), h.itemsOf_eq "inline" (by decide),
    h.itemsOf_eq "supertypes" (by decide)]
  have hconvert := hrules.convertRules_eq
  cases hrules with
  | nil => rfl
  | @cons rule other rest wrappedRest hfirst _ =>
    -- The first rule keeps its name, so the entrypoint is the same.
    have hread (first : String × Json) (more : List (String × Json)) :
        ruleMembers (.obj (first :: more)) = .ok (first :: more) := rfl
    simp only [bind, Except.bind, hread, hconvert, List.head?_cons, Option.map_some,
      Option.getD_some, hfirst.1]

end

end Description

/-- Wrappers around the bodies of a description do not change the grammar that is loaded from it,
and where none is loaded they do not change the error. -/
theorem Grammar.ofJson_wrapped {members wrapped : List (String × Json)}
    (h : WrappedDescription members wrapped) :
    Grammar.ofJson (.obj wrapped) = Grammar.ofJson (.obj members) := by
  rw [ofJson, ofJson, ofMembers, ofMembers, h.draftOf_eq,
    h.itemsOf_eq "extras" (by decide)]

/-- A wrapper of the given kind around a body, which says more about it. -/
def inWrapper (kind : String) (more : List (String × Json)) (body : Json) : Json :=
  .obj (("type", .str kind) :: ("content", body) :: more)

theorem wrapped_inWrapper {kind : String} (hkind : isTransparent kind)
    (more : List (String × Json)) {value body : Json} (h : Wrapped value body) :
    Wrapped value (inWrapper kind more body) :=
  .around rfl hkind rfl h

def wrappedLineRules : List (String × Json) :=
  [("line", inWrapper "PREC_LEFT" [("value", .int 1)] (.obj [("type", .str "SEQ"),
      ("members", .arr [inWrapper "FIELD" [("name", .str "margin")] (symbolOf "indent"),
        inWrapper "PREC" [("value", .int 2)] (inWrapper "PREC_RIGHT" [] (symbolOf "_text")),
        .obj [("type", .str "ALIAS"), ("named", .bool true), ("value", .str "label"),
          ("content", inWrapper "TOKEN" [] (symbolOf "word"))]])])),
    ("_text", .obj [("type", .str "REPEAT"),
      ("content", inWrapper "IMMEDIATE_TOKEN" [] (symbolOf "word"))]),
    ("word", inWrapper "RESERVED" [("context_name", .str "words")]
      (.obj [("type", .str "PATTERN"), ("value", .str "[a-z]+")]))]

/-- The line of words with wrappers around its rules, the parts of the line, the content of its
label and what is repeated in the text. -/
def wrappedLineMembers : List (String × Json) :=
  [("rules", .obj wrappedLineRules), ("externals", .arr [symbolOf "indent"])]

theorem lineMembers_wrapped : WrappedDescription lineMembers wrappedLineMembers := by
  have hsymbol {kind : String} (hkind : isTransparent kind) (more : List (String × Json))
      (name : String) : Wrapped (symbolOf name) (inWrapper kind more (symbolOf name)) :=
    wrapped_inWrapper hkind more (.same _)
  refine ⟨⟨lineRules, wrappedLineRules, rfl, rfl, ?_⟩, fun name hname => ?_⟩
  · refine .cons ⟨rfl, ?_⟩ (.cons ⟨rfl, ?_⟩ (.cons ⟨rfl, ?_⟩ .nil))
    · refine wrapped_inWrapper rfl _ (.inside (.keep _ (.parts ?_ .nil)))
      refine .cons (hsymbol rfl _ _) (.cons ?_ (.cons ?_ .nil))
      · exact wrapped_inWrapper rfl _ (hsymbol rfl _ _)
      · exact .inside (.keep _ (.keep _ (.keep _ (.content (hsymbol rfl _ _) .nil))))
    · exact .inside (.keep _ (.content (hsymbol rfl _ _) .nil))
    · exact wrapped_inWrapper rfl _ (.same _)
  · have hrules : ¬ "rules" = name := fun heq => hname heq.symm
    simp only [wrappedLineMembers, lineMembers, Json.member, if_neg hrules]

/-- The same grammar is loaded from both, with a rule for the label. -/
theorem lineMembers_loaded_wrapped : WrappedDescription lineMembers wrappedLineMembers ∧
    Grammar.ofJson (.obj wrappedLineMembers) = Grammar.ofJson (.obj lineMembers) ∧
    ((Grammar.ofJson (.obj wrappedLineMembers)).toOption.map Grammar.names) =
      some [.str "line", .str "word", .str "indent", .str "label"] :=
  ⟨lineMembers_wrapped, Grammar.ofJson_wrapped lineMembers_wrapped, by decide +kernel⟩

end TreeGrammar
