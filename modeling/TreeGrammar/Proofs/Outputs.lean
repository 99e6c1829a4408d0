import TreeGrammar.Proofs.Headers

/-!
What the generator does to files. Everything that can be wrong with a request and its grammar is
found before the output is opened, except names that are no texts: a symbol that has none stops the
making of code after the output was emptied, and an extra that has none stops the printing after the
module was written. Apart from these two a run that fails leaves all files alone, and a run that
succeeds writes the module of the grammar to the output and nothing else.
-/
namespace TreeGrammar.Cli

/-- What a program has written when it ends. -/
def Ending.writes : Ending → List (String × String)
  | .misuse | .help => []
  | .report r => r.writes
  | .uncaught _ writes => writes

namespace Directory

/-- The bytes of the file of that name after some writes, if there is one. -/
def fileAfter (dir : Directory) (writes : List (String × String)) (file : List String) :
    Option (List UInt8) :=
  writes.foldl (fun bytes (path, text) =>
    if (dir.find path).2 = file then some (Text.encodeUtf8 text) else bytes) (dir.file? file)

/-- After the writes the output has the text, and every other file is as it was. -/
def Replaces (dir : Directory) (writes : List (String × String)) (output text : String) : Prop :=
  ∀ file, dir.fileAfter writes file =
    if (dir.find output).2 = file then some (Text.encodeUtf8 text) else dir.file? file

end Directory

namespace Generate

open Code

/-- The grammar with the entrypoint that a request asks for. An empty name asks for no other one. -/
def Request.entered (request : Request) (loaded : Grammar) : Grammar :=
  match request.entrypoint with
  | none | some "" => loaded
  | some name => loaded.withEntrypoint name

variable {look : Lookup} {request : Request} {path output : String} {g : Grammar}

end Generate

end TreeGrammar.Cli
