/-! A folder of files, and the ways in which reading and writing by path fail. -/
namespace EventScript

inductive FileError where
  | notFound
  | notDirectory
  | isDirectory
  | notText
  | refused (reason : String)
  deriving DecidableEq

namespace FileError

def message : FileError → String
  | notFound => "No such file or directory (os error 2)"
  | notDirectory => "Not a directory (os error 20)"
  | isDirectory => "Is a directory (os error 21)"
  | notText => "stream did not contain valid UTF-8"
  | refused reason => reason

end FileError

/-- Files by path, without empty, `.` or `..` parts. -/
structure Folder where
  files : List (List String × ByteArray)

namespace Folder

def parts (path : String) : List String :=
  (path.toList.foldr (fun c (parts : List (List Char)) =>
    match parts with
    | [] => [[c]]
    | p :: rest => if c = '/' then [] :: p :: rest else (c :: p) :: rest) [[]]).map String.ofList

def ofFiles (files : List (String × ByteArray)) : Folder :=
  ⟨files.map fun (name, bytes) => ((parts name).filter fun p => p != "" && p != ".", bytes)⟩

def hasDirectory (f : Folder) (path : List String) : Bool :=
  path.isEmpty || f.files.any fun (p, _) => path.length < p.length && path.isPrefixOf p

def file? (f : Folder) (path : List String) : Option ByteArray := f.files.lookup path

def resolve (f : Folder) (here : List String) : List String → Except FileError (List String)
  | [] => .ok here
  | part :: rest =>
    if f.hasDirectory here then
      if part = "" ∨ part = "." then resolve f here rest
      else if part = ".." then
        if here.isEmpty then .error .notFound else resolve f here.dropLast rest
      else resolve f (here ++ [part]) rest
    else if (f.file? here).isSome then .error .notDirectory
    else .error .notFound

def locate (f : Folder) (path : String) : Except FileError (List String) :=
  if path.toList.head? = some '/' then .error .notFound else f.resolve [] (parts path)

def read (f : Folder) (path : String) : Except FileError ByteArray := do
  let place ← f.locate path
  match f.file? place with
  | some bytes => .ok bytes
  | none => .error (if f.hasDirectory place then .isDirectory else .notFound)

def write (f : Folder) (path : String) (bytes : ByteArray) : Except FileError Folder := do
  let named := parts path
  let open' := named.getLast?.any fun p => p = ""
  let place ← f.locate (if open' then String.ofList path.toList.dropLast else path)
  if f.hasDirectory place then .error .isDirectory
  else if (f.file? place).isSome then
    if open' then .error .notDirectory
    else .ok ⟨f.files.map fun (p, old) => if p = place then (p, bytes) else (p, old)⟩
  else if open' then .error .isDirectory
  else if f.hasDirectory place.dropLast then .ok ⟨f.files ++ [(place, bytes)]⟩
  else .error .notFound

end Folder

end EventScript
