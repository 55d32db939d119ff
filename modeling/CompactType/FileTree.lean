import CompactType.FileAccess

/-!
# Trees of files

A tree of folders and regular files, known by their paths from the root. A path that starts with
a slash is walked from the root, any other one from the working directory.
-/

set_option autoImplicit false

namespace CompactType

structure FileTree where
  /-- The working directory. -/
  home : List String
  folders : List (List String)
  /-- The folders in which nothing can be created. -/
  readOnly : List (List String)
  contents : List (List String × ByteArray)

namespace FileTree

inductive Failure where
  | notFound
  | denied
  | notAFolder
  | isAFolder
  | nameTooLong
deriving DecidableEq, Repr

def Failure.message : Failure → String
  | notFound => "No such file or directory (os error 2)"
  | denied => "Permission denied (os error 13)"
  | notAFolder => "Not a directory (os error 20)"
  | isAFolder => "Is a directory (os error 21)"
  | nameTooLong => "File name too long (os error 36)"

inductive Place where
  | folder
  | file (path : List String) (content : ByteArray)
  | vacant (path : List String)
  | nowhere (onRead : Failure) (onWrite : Failure)

def splitSlash : List Char → List (List Char)
  | [] => [[]]
  | '/' :: rest => [] :: splitSlash rest
  | c :: rest =>
    match splitSlash rest with
    | [] => [[c]]
    | part :: parts => (c :: part) :: parts

def components (path : String) : List String := (splitSlash path.toList).map String.ofList

def maxName : Nat := 255

def maxPath : Nat := 4095

/-- Whether a component stays where it is. Slashes in a row or at the end give empty ones. -/
def isIdle (component : String) : Bool := component == "" || component == "."

def tooLong (component : String) : Bool := maxName < component.utf8ByteSize

/-- Why nothing can be created under a name. If only slashes follow it, a folder is meant, and
that alone is the reason. -/
def uncreated (rest : List String) (otherwise : Failure) : Failure :=
  if !rest.isEmpty && rest.all (· == "") then .isAFolder else otherwise

/-- Walks on from a folder, whose path is given with the last name first. The root is its own
parent. -/
def walk (t : FileTree) : List String → List String → Place
  | _, [] => .folder
  | here, c :: rest =>
    if isIdle c then walk t here rest
    else if c == ".." then walk t here.tail rest
    else if tooLong c then .nowhere .nameTooLong (uncreated rest .nameTooLong)
    else
      let path := (c :: here).reverse
      if t.folders.contains path then walk t (c :: here) rest
      else match t.contents.lookup path with
        | some content =>
          if rest.isEmpty then .file path content
          else .nowhere .notAFolder (uncreated rest .notAFolder)
        | none =>
          if rest.isEmpty then
            if t.readOnly.contains here.reverse then .nowhere .notFound .denied else .vacant path
          else .nowhere .notFound (uncreated rest .notFound)

def locate (t : FileTree) (path : String) : Place :=
  if maxPath < path.utf8ByteSize then .nowhere .nameTooLong .nameTooLong
  else match components path with
    | [""] => .nowhere .notFound .notFound
    | "" :: rest => walk t [] rest
    | parts => walk t t.home.reverse parts

def present (t : FileTree) (path : String) : Bool :=
  match t.locate path with
  | .folder | .file .. => true
  | .vacant _ | .nowhere .. => false

def read (t : FileTree) (path : String) : Except Failure ByteArray :=
  match t.locate path with
  | .folder => .error .isAFolder
  | .file _ content => .ok content
  | .vacant _ => .error .notFound
  | .nowhere onRead _ => .error onRead

def write (t : FileTree) (path : String) (content : ByteArray) : Except Failure FileTree :=
  match t.locate path with
  | .folder => .error .isAFolder
  | .file path _ =>
    .ok { t with contents := t.contents.map fun (p, old) =>
      (p, if p = path then content else old) }
  | .vacant path => .ok { t with contents := t.contents ++ [(path, content)] }
  | .nowhere _ onWrite => .error onWrite

def access : FileAccess (StateM FileTree) where
  present path := return (← get).present path
  read path := return ((← get).read path).mapError Failure.message
  write path content := do
    match (← get).write path content.toUTF8 with
    | .ok t =>
      set t
      return .ok ()
    | .error e => return .error e.message

def files (t : FileTree) : List (List String × ByteArray) :=
  t.contents.filterMap fun (path, content) => (t.home.isPrefixOf? path).map (·, content)

def parents (path : List String) : List (List String) := (List.range path.length).map path.take

/-- A working directory with folders and files in it, in a root that cannot be written. -/
def ofLists (folders : List String) (files : List (String × ByteArray)) : FileTree :=
  let home := ["home"]
  let names := fun (path : String) => home ++ (components path).filter fun c => !isIdle c
  let folders := home :: folders.map names
  let contents := files.map fun (path, content) => (names path, content)
  { home, contents
    folders := (folders ++ folders.flatMap parents ++ contents.flatMap fun f => parents f.1).eraseDups
    readOnly := [[]] }

end FileTree

end CompactType
