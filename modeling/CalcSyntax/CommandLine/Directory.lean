import CalcSyntax.CommandLine.Host

/-!
# Directory — a file system that is a value

A directory lists files and folders by their names. Paths are read part
by part, as a system reads them: every part but the last must be a
folder, and so must the last one in front of a slash. Above the directory
there is nothing to be found.

`Directory.host` lets a run read and write it and collects what is
printed.
-/

set_option autoImplicit false

namespace CalcSyntax

/-- What a name stands for. -/
inductive FileNode where
  | file (bytes : ByteArray)
  | folder

/-- Names with what they stand for. The parts of a longer name are kept
apart; the first entry of a name counts. -/
structure Directory where
  entries : List (List String × FileNode)

/-- What a path leads to. -/
inductive Target where
  | file (name : List String) (bytes : ByteArray)
  | folder
  /-- A free name in a folder. -/
  | free (name : List String)

namespace Directory

/-- The parts of a path between its slashes. -/
def parts (path : String) : List String := (path.toList.splitOn '/').map String.ofList

/-- Whether a part of a path stays where it is. A slash at the end leaves an
empty part, which therefore wants a folder. -/
def isHere (part : String) : Bool := part == "" || part == "."

/-- A directory of named entries. -/
def ofEntries (entries : List (String × FileNode)) : Directory :=
  ⟨entries.map fun e => ((parts e.1).filter (!isHere ·), e.2)⟩

/-- The folder above one; above the directory is everything else. -/
def above : Option (List String) → Option (List String)
  | none => none
  | some [] => none
  | some here => some here.dropLast

/-- Follows the parts of a path from a folder; `none` is one above the
directory. -/
def follow (d : Directory) (here : Option (List String)) : List String → Except FileFault Target
  | [] => .ok .folder
  | p :: ps =>
    if isHere p then follow d here ps
    else if p = ".." then follow d (above here) ps
    else
      match here with
      | none => .error .notFound
      | some folder =>
        let name := folder ++ [p]
        match d.entries.lookup name with
        | some .folder => follow d (some name) ps
        | some (.file bytes) => if ps.isEmpty then .ok (.file name bytes) else .error .notDirectory
        | none => if ps.isEmpty then .ok (.free name) else .error .notFound

/-- What a path leads to. -/
def find (d : Directory) (path : String) : Except FileFault Target :=
  d.follow (if path.toList.head? = some '/' then none else some []) (parts path)

/-- The text of a file. -/
def read (d : Directory) (path : String) : Except FileFault String := do
  match ← d.find path with
  | .folder => .error .isDirectory
  | .free _ => .error .notFound
  | .file _ bytes =>
    match String.fromUTF8? bytes with
    | some text => .ok text
    | none => .error .notText

/-- The directory with a text under a path. -/
def write (d : Directory) (path text : String) : Except FileFault Directory := do
  match ← d.find path with
  | .folder => .error .isDirectory
  | .free name | .file name _ => .ok ⟨(name, .file text.toUTF8) :: d.entries⟩

end Directory

/-- A directory, and what has been printed beside it. -/
structure Desk where
  directory : Directory
  printed : String
  warned : String

namespace Desk

/-- A directory with nothing printed. -/
def ofDirectory (d : Directory) : Desk := ⟨d, "", ""⟩

/-- Reads, writes and prints on a desk. -/
def host : Host (StateM Desk) where
  read path := do
    let desk ← get
    return desk.directory.read path
  write path text := do
    let desk ← get
    match desk.directory.write path text with
    | .error fault => return .error fault
    | .ok directory =>
      set { desk with directory }
      return .ok ()
  print text := modify fun desk => { desk with printed := desk.printed ++ text }
  warn text := modify fun desk => { desk with warned := desk.warned ++ text }

end Desk

/-- Runs the analyzer in a directory. -/
def Options.runIn (o : Options) (d : Directory) : Status × Desk :=
  (o.run Desk.host).run (Desk.ofDirectory d)

end CalcSyntax
