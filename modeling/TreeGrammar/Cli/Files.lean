import TreeGrammar.Text.Quoted
import TreeGrammar.Text.Utf8

/-!
Files as a program sees them: what a path names, and why it cannot be opened. A directory is given
by the files below it; other directories than those that hold a file do not exist in it. A path and
each name on it have a greatest length in bytes, and a path holds no NUL.
-/
namespace TreeGrammar.Cli

/-- Why a file cannot be opened. -/
inductive FileFault where
  | noSuchFile
  | isDirectory
  | notDirectory
  /-- The path or a name on it has too many bytes. -/
  | nameTooLong
  /-- The path holds a NUL. -/
  | nulInPath
deriving DecidableEq, Repr

/-- A file that cannot be opened. -/
structure FileError where
  fault : FileFault
  path : String

def FileError.message (e : FileError) : String :=
  let named (description : String) := description ++ ": " ++ Text.quoted e.path
  match e.fault with
  | .noSuchFile => named "[Errno 2] No such file or directory"
  | .isDirectory => named "[Errno 21] Is a directory"
  | .notDirectory => named "[Errno 20] Not a directory"
  | .nameTooLong => named "[Errno 36] File name too long"
  | .nulInPath => "embedded null byte"

/-- What a path names. -/
inductive Entry where
  | file (bytes : List UInt8)
  | directory
  /-- Nothing, but a file of that name can be made. -/
  | free
  /-- Nothing, and no file can be made. -/
  | fault (fault : FileFault)

/-- What the paths name. -/
abbrev Lookup := String → Entry

def Lookup.read (look : Lookup) (path : String) : Except FileError (List UInt8) :=
  match look path with
  | .file bytes => .ok bytes
  | .directory => .error ⟨.isDirectory, path⟩
  | .free => .error ⟨.noSuchFile, path⟩
  | .fault f => .error ⟨f, path⟩

def Lookup.writeFault (look : Lookup) (path : String) : Option FileError :=
  match look path with
  | .file _ | .free => none
  | .directory => some ⟨.isDirectory, path⟩
  | .fault f => some ⟨f, path⟩

/-- A directory as the names on the way to each file below it, and the file's bytes. -/
structure Directory where
  files : List (List String × List UInt8)

namespace Directory

/-- The names on a path, empty ones where slashes meet or end it. -/
def components (path : String) : List String :=
  go [] path.toList
where
  /-- The names of the rest of a path, `name` being read so far, last character first. -/
  go (name : List Char) : List Char → List String
    | [] => [String.ofList name.reverse]
    | '/' :: rest => String.ofList name.reverse :: go [] rest
    | c :: rest => go (c :: name) rest

def ofFiles (files : List (String × List UInt8)) : Directory :=
  ⟨files.map fun (path, bytes) => (components path, bytes)⟩

/-- The bytes of the file of that name. -/
def file? (dir : Directory) (names : List String) : Option (List UInt8) :=
  dir.files.lookup names

/-- Whether there is a directory of that name. -/
def hasDirectory (dir : Directory) (names : List String) : Bool :=
  names.isEmpty ||
    dir.files.any fun (path, _) => names.isPrefixOf path && names.length < path.length

/-- The greatest count of bytes of a name. -/
def nameLimit : Nat := 255

/-- The greatest count of bytes of a path. -/
def pathLimit : Nat := 4095

/-- What is found by going on from a place outside the directory, where no files are. -/
def outside : List String → Entry
  | [] => .directory
  | "" :: rest | "." :: rest | ".." :: rest => outside rest
  | name :: _ =>
    .fault (if nameLimit < name.utf8ByteSize then .nameTooLong else .noSuchFile)

/-- What is found by going on from the directory of the name `here`, and the name of that place. -/
def follow (dir : Directory) (here : List String) : List String → Entry × List String
  | [] => (.directory, here)
  | "" :: rest | "." :: rest => dir.follow here rest
  | ".." :: rest => if here.isEmpty then (outside rest, []) else dir.follow here.dropLast rest
  | name :: rest =>
    let there := here ++ [name]
    if nameLimit < name.utf8ByteSize then (.fault .nameTooLong, there)
    else if dir.hasDirectory there then dir.follow there rest
    else
      match dir.file? there, rest with
      | some bytes, [] => (.file bytes, there)
      | some _, _ :: _ => (.fault .notDirectory, there)
      | none, [] => (.free, there)
      | none, _ :: _ => (.fault .noSuchFile, there)

/-- What a path names, and the name of that place. The empty path names nothing, and a path that
starts with a slash leads outside. -/
def find (dir : Directory) (path : String) : Entry × List String :=
  if path.contains '\x00' then (.fault .nulInPath, [])
  else if pathLimit < path.utf8ByteSize then (.fault .nameTooLong, [])
  else
    match components path with
    | [""] => (.fault .noSuchFile, [])
    | "" :: names => (outside names, [])
    | names => dir.follow [] names

/-- What the paths name. -/
def look (dir : Directory) : Lookup :=
  fun path => (dir.find path).1

/-- The files that are new or changed after some writes, with their texts. Later writes to a file
replace earlier ones. -/
def changes (dir : Directory) (writes : List (String × String)) : List (String × String) :=
  let targets := writes.map fun (path, text) => ((dir.find path).2, text)
  let final := targets.foldl (fun kept (names, text) =>
    kept.filter (fun k => k.1 != names) ++ [(names, text)]) []
  (final.filter fun (names, text) => dir.file? names != some (Text.encodeUtf8 text)).map
    fun (names, text) => ("/".intercalate names, text)

end Directory

end TreeGrammar.Cli
