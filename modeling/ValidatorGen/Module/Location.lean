import ValidatorGen.Path

/-!
# Locations of names

The location of a name is the module that exports it. A relative location is a path from the base
directory; any other location is taken over as it is. `specifier` is how a module refers to a
location, and `isOwn` tells whether a location is that module itself.
-/

namespace ValidatorGen.Location

/-- Whether a location is a path from the base directory. -/
def isRelative (location : String) : Bool :=
  match location.toList with
  | ['.'] => true
  | ['.', '.'] => true
  | '.' :: '/' :: _ => true
  | '.' :: '.' :: '/' :: _ => true
  | _ => false

/-- The place of a relative location. -/
def target (base : Path) (location : String) : Path := (base.join ⟨location⟩).normalize

/-- Whether a location is the module with a given path. -/
def isOwn (base : Path) (location : String) (module : Path) : Bool :=
  if isRelative location then (target base location).samePlace module
  else (Path.mk location).samePlace module

/-- A relative path as a specifier: it uses slashes only, and it begins with `./` unless it leads
out of the directory. -/
def ofRelativePath (path : Path) : String :=
  let text := path.text.toList.map fun c => if c = '\\' then '/' else c
  match text with
  | '.' :: '.' :: '/' :: _ => String.ofList text
  | _ => String.ofList ('.' :: '/' :: text)

/-- What a module writes to import from a location. -/
def specifier (base module : Path) (location : String) : String :=
  if isRelative location then ofRelativePath ((target base location).relativeTo module.directory)
  else location

end ValidatorGen.Location
