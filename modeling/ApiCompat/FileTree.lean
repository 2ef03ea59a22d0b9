/-!
# Files below a working directory

A `FileTree` holds the contents of files under their paths, which are lists of
names.  Directories are the front parts of those paths.  A path as given on a
command line is followed name by name from the working directory; what lies
outside is unknown and so not found.
-/

set_option autoImplicit false

namespace ApiCompat

inductive FileFailure where
  | notFound
  | notDirectory
  | isDirectory
  /-- The file is not text in UTF-8. -/
  | notText
deriving DecidableEq

def FileFailure.message : FileFailure → String
  | notFound => "No such file or directory (os error 2)"
  | notDirectory => "Not a directory (os error 20)"
  | isDirectory => "Is a directory (os error 21)"
  | notText => "stream did not contain valid UTF-8"

abbrev FileReader : Type := String → Except FileFailure String

structure FileTree where
  files : List (List String × ByteArray)

inductive FileEntry where
  | file (path : List String) (content : ByteArray)
  | directory (path : List String)
  /-- Nothing, in a directory in which it could be made. -/
  | vacant (path : List String)
  | failure (cause : FileFailure)

namespace FileTree

def empty : FileTree := ⟨[]⟩

def content? (tree : FileTree) (path : List String) : Option ByteArray :=
  (tree.files.find? fun file => file.1 == path).map Prod.snd

/-- Whether a path is a directory: the working directory, or a proper front part of a file. -/
def isDirectory (tree : FileTree) (path : List String) : Bool :=
  path.isEmpty || tree.files.any fun file => path.isPrefixOf file.1 && file.1 != path

/-- The names that a path consists of; the last one is empty after a slash at the end. -/
def pathNames (path : String) : List String :=
  (path.toList.splitOn '/').map String.ofList

def follow (tree : FileTree) (here : List String) : List String → FileEntry
  | [] => .directory here
  | name :: rest =>
      if name = "" ∨ name = "." then follow tree here rest
      else if name = ".." then
        if here.isEmpty then .failure .notFound else follow tree here.dropLast rest
      else
        let next := here ++ [name]
        if tree.isDirectory next then follow tree next rest
        else
          match tree.content? next with
          | some content => if rest.isEmpty then .file next content else .failure .notDirectory
          | none => if rest.isEmpty then .vacant next else .failure .notFound

def lookup (tree : FileTree) (path : String) : FileEntry :=
  if path.isEmpty ∨ path.toList.head? = some '/' then .failure .notFound
  else tree.follow [] (pathNames path)

def read (tree : FileTree) : FileReader := fun path =>
  match tree.lookup path with
  | .file _ content =>
      match String.fromUTF8? content with
      | some text => .ok text
      | none => .error .notText
  | .directory _ => .error .isDirectory
  | .vacant _ => .error .notFound
  | .failure cause => .error cause

def withoutEndSlashes (path : String) : String :=
  String.ofList (path.toList.reverse.dropWhile (· == '/')).reverse

/-- The tree in which the file of a path has a given text.  A path with a slash at the end means a
directory, whether there is one or not. -/
def write (tree : FileTree) (path text : String) : Except FileFailure FileTree :=
  let put := fun (place : List String) =>
    if withoutEndSlashes path = path then
      .ok (FileTree.mk ((place, text.toUTF8) :: tree.files.filter fun file => file.1 != place))
    else .error FileFailure.isDirectory
  match tree.lookup (withoutEndSlashes path) with
  | .file place _ => put place
  | .vacant place => put place
  | .directory _ => .error .isDirectory
  | .failure cause => .error cause

def add (tree : FileTree) (path : String) (content : ByteArray) : FileTree :=
  ⟨((pathNames path).filter (fun name => name != "" && name != "."), content) :: tree.files⟩

end FileTree

end ApiCompat
