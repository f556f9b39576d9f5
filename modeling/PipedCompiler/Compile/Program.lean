import PipedCompiler.Compile.Host
import PipedCompiler.Language.Emitted
import PipedCompiler.Language.ModulePath
import PipedCompiler.Language.Names
import PipedCompiler.Language.SyntaxTree

/-!
# Programs

A program is made of the default library, a root and all that these import, each file behind those
that it imports.  Imports may go round in circles: a file that is being loaded counts as there.
-/

namespace PipedCompiler.Compile

open PipedCompiler.Text PipedCompiler.Language

/-- A file of a program. -/
structure LoadedFile where
  source : SourceFile
  tree : SyntaxTree
  /-- The imports that lead to no file. -/
  unresolved : List Import

namespace LoadedFile

/-- The diagnostics of the file's syntax. -/
def syntaxDiagnostics (f : LoadedFile) : List Diagnostic :=
  f.tree.errors.map fun e => (Diagnostic.error e.fault.code e.fault.message).place f.source e.offset

/-- The diagnostics of imports that lead nowhere. -/
def importDiagnostics (f : LoadedFile) : List Diagnostic :=
  f.unresolved.map fun i =>
    (Diagnostic.error "TS2307" s!"Cannot find module '{i.specifier}'.").place f.source i.offset

end LoadedFile

/-- Where a program is loaded. -/
structure Surroundings where
  /-- The directory that the root is looked for in; none if it is empty. -/
  directory : String
  /-- A name that is the same for all paths of one file. -/
  canonicalName : String → String

/-- Surroundings in which each path stands for itself. -/
def Surroundings.plain : Surroundings := ⟨"", id⟩

/-- What can stop a compile short. -/
inductive Halt where
  /-- A file has a word that cannot be read. -/
  | unreadableWord
  /-- Files import each other in a chain that is too long. -/
  | deepImports
  deriving Repr, DecidableEq

/-- How far loading has come. -/
structure Progress where
  host : Host
  /-- Canonical names of files that have been looked for, and whether they are there. -/
  found : Table Bool
  /-- The files loaded so far, the last one first. -/
  files : List LoadedFile

/-- A step of loading. -/
abbrev Loading := StateT Progress (ExceptT Halt Dialogue)

namespace Loading

/-- Lets the host do something. -/
def hosted {α : Type} (action : Hosted α) : Loading α := fun p =>
  ExceptT.mk do
    let (a, host) ← action p.host
    return .ok (a, { p with host })

/-- Notes whether a file is there. -/
def note (key : String) (found : Bool) : Loading Unit :=
  modify fun p => { p with found := p.found.insert key found }

/-- The file that an import leads to, as far as that is known before it is loaded. -/
def resolve (importer specifier : String) : Loading (Option String) := do
  let base := importBase importer.toList specifier.toList
  if hasExtension base then
    return some (String.ofList base)
  let sourcePath := String.ofList base ++ ".ts"
  if ← hosted (Host.exists? sourcePath) then
    return some sourcePath
  let declarationPath := String.ofList base ++ ".d.ts"
  if ← hosted (Host.exists? declarationPath) then
    return some declarationPath
  return none

/-- The imports of a file that lead nowhere, where `load` loads a file and tells if it is there. -/
def loadImports (load : String → Loading Bool) (importer : String) :
    List Import → Loading (List Import)
  | [] => return []
  | i :: is => do
    let found ← match ← resolve importer i.specifier with
      | some path => load path
      | none => pure false
    let others ← loadImports load importer is
    return if found then others else i :: others

/-- Loads a file and all that it imports, and tells if it is there.  Chains of imports may be `depth`
files long. -/
def load (place : Surroundings) (target : LanguageTarget) : (depth : Nat) → String → Loading Bool
  | depth, path => do
    let key := place.canonicalName path
    match (← get).found.get? key with
    | some found => return found
    | none =>
      match depth with
      | 0 => throw .deepImports
      | depth + 1 =>
        note key true
        match ← hosted (Host.sourceFile path target) with
        | none =>
          note key false
          return false
        | some source =>
          match SyntaxTree.ofText? source.chars with
          | none => throw .unreadableWord
          | some tree =>
            let unresolved ← loadImports (load place target depth) path tree.imports
            modify fun p => { p with files := ⟨source, tree, unresolved⟩ :: p.files }
            return true

end Loading

/-- A loaded program. -/
structure Program where
  root : String
  target : LanguageTarget
  /-- The files, each behind those that it imports, as far as there are no circles. -/
  files : List LoadedFile
  /-- The library and the root, as far as they are missing. -/
  missing : List String

namespace Program

/-- The path of a root in some surroundings. -/
def rootPath (place : Surroundings) (root : String) : String :=
  if place.directory = "" || root.toList.head? == some '/' then root
  else String.ofList (joinPath place.directory.toList root.toList)

/-- Loads a file and tells what is missing. -/
def demand (place : Surroundings) (target : LanguageTarget) (depth : Nat) (path : String) :
    Loading (List String) := do
  return if ← Loading.load place target depth path then [] else [path]

/-- Loads a program with a host.  Chains of imports may be `depth` files long. -/
def load (place : Surroundings) (depth : Nat) (root : String) (host : Host) :
    Dialogue (Except Halt (Program × Host)) := do
  let options := host.options
  let path := rootPath place root
  let loading : Loading (List String) := do
    let library ←
      if options.omitsDefaultLibrary then pure []
      else demand place options.target depth options.libraryPath
    let main ← demand place options.target depth path
    return library ++ main
  match ← (loading.run ⟨host, .empty, []⟩).run with
  | .ok (missing, p) => return .ok (⟨path, options.target, p.files.reverse, missing⟩, p.host)
  | .error halt => return .error halt

/-- The paths of the files. -/
def paths (p : Program) : List String :=
  p.files.map (·.source.path)

/-- The diagnostics of syntax. -/
def syntaxDiagnostics (p : Program) : List Diagnostic :=
  p.files.flatMap LoadedFile.syntaxDiagnostics

/-- The diagnostics of the program as a whole. -/
def globalDiagnostics (p : Program) : List Diagnostic :=
  p.missing.map fun path => .error "TS6053" s!"File '{path}' not found."

/-- The names that are known in all files: those declared in files of declarations. -/
def globals (p : Program) : List String :=
  (p.files.filter (·.source.isDeclaration)).flatMap fun f =>
    (declaredNames f.tree.statements).map Name.text

/-- The diagnostics of imports and names. -/
def semanticDiagnostics (p : Program) : List Diagnostic :=
  let globals := p.globals
  p.files.flatMap fun f =>
    f.importDiagnostics ++
      if f.source.isDeclaration then [] else checkNames f.source globals f.tree.statements

/-- The diagnostics of types.  A program that lacks files is not looked at further. -/
def typeDiagnostics (p : Program) : List Diagnostic :=
  match p.globalDiagnostics with
  | [] => p.semanticDiagnostics
  | ds => ds

/-- What emitting comes to. -/
structure Emission where
  /-- The files to write, with their texts. -/
  writes : List (String × String)
  /-- The paths of the files that are named as emitted. -/
  files : List String
  diagnostics : List Diagnostic
  deriving Repr, DecidableEq

/-- What is said about a file that would be written twice. -/
def overwritten (path : String) : Diagnostic :=
  .error "TS5056"
    s!"Cannot write file '{path}' because it would be overwritten by multiple input files."

/-- Emits files, when files of the canonical names `taken` have been written. -/
def emitFiles (canonicalName : String → String) (render : LoadedFile → String) :
    (taken : List String) → List LoadedFile → Emission
  | _, [] => ⟨[], [], []⟩
  | taken, f :: fs =>
    let path := outputPath f.source.path
    let key := canonicalName path
    if taken.contains key then
      let e := emitFiles canonicalName render taken fs
      { e with diagnostics := overwritten path :: e.diagnostics }
    else
      let e := emitFiles canonicalName render (key :: taken) fs
      { e with writes := (path, render f) :: e.writes, files := path :: e.files }

/-- Emits the files that do not only declare. -/
def emit (p : Program) (canonicalName : String → String) (newLine : String) : Emission :=
  emitFiles canonicalName (fun f => Language.emit p.target newLine f.tree.statements) []
    (p.files.filter (!·.source.isDeclaration))

end Program

/-- Writes what has been emitted. -/
def Host.writeAll (h : Host) (writes : List (String × String)) : Host :=
  writes.foldl (fun h w => h.write w.1 w.2) h

end PipedCompiler.Compile
