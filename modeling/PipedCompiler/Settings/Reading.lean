import PipedCompiler.Settings.Basic
import PipedCompiler.Toml.Document

/-!
# Reading settings

Settings are written in TOML, with a table for every section.  What a document leaves out is as
usual, and what it says beside the settings is passed over.
-/

namespace PipedCompiler.Settings

open PipedCompiler.Toml

/-- A field of a section: its key, and how its value is taken. -/
structure Field (σ : Type) where
  key : String
  take : Value → σ → Option σ

/-- A field that holds a value of some type. -/
def field {σ α : Type} (key : String) (read : Value → Option α) (set : σ → α → σ) : Field σ :=
  ⟨key, fun v s => (read v).map (set s)⟩

/-- A truth value. -/
def flag? : Value → Option Bool
  | .boolean b => some b
  | _ => none

/-- A number below `2 ^ 64`. -/
def count? : Value → Option Nat
  | .integer (.ofNat n) => if n < Nat.pow 2 64 then some n else none
  | _ => none

/-- A text. -/
def text? : Value → Option String
  | .string s => some s
  | _ => none

/-- A list of texts. -/
def texts? : Value → Option (List String)
  | .array items => items.mapM text?
  | _ => none

/-- Whether a value is an array or a table without anything in it. -/
def isEmpty : Value → Bool
  | .array [] => true
  | .table [] => true
  | _ => false

/-- One of some named choices, given by its name, or as a table with the name as its only key. -/
def choice? {α : Type} (names : List (String × α)) : Value → Option α
  | .string name => names.lookup name
  | .table [(name, v)] => if isEmpty v then names.lookup name else none
  | _ => none

/-- Takes an entry of a table. -/
def takeEntry {σ : Type} (fields : List (Field σ)) (s : σ) (key : String) (v : Value) : Option σ :=
  match fields.find? (·.key = key) with
  | some f => f.take v s
  | none => if v.isRepresentable then some s else none

/-- Takes a table. -/
def takeTable {σ : Type} (fields : List (Field σ)) (s : σ) (entries : List (String × Value)) :
    Option σ :=
  entries.foldlM (fun s e => takeEntry fields s e.1 e.2) s

/-- Takes a section: a table, an array of values in the order of the fields, or a date, which says
nothing about any field. -/
def takeSection {σ : Type} (fields : List (Field σ)) (s : σ) : Value → Option σ
  | .table entries => takeTable fields s entries
  | .array items => (fields.zip items).foldlM (fun s e => e.1.take e.2 s) s
  | .dateTime => some s
  | _ => none

/-- The fields of the section on the bridge. -/
def bridgeFields : List (Field Bridge) := [
  field "supports_exists_query" flag? fun s v => { s with asksExistence := v },
  field "timeout_ms" count? fun s v => { s with timeoutMillis := v }]

/-- The fields of the section on compiling. -/
def compilerFields : List (Field Compiler) := [
  field "target" (choice? LanguageTarget.names) fun s v => { s with target := v },
  field "stages" (choice? Stages.names) fun s v => { s with stages := v },
  field "lib_layout" (choice? LibraryLayout.names) fun s v => { s with libraryLayout := v },
  field "new_line" (choice? NewLine.names) fun s v => { s with newLine := v },
  field "no_default_lib" flag? fun s v => { s with omitsDefaultLibrary := v }]

/-- The fields of the section on sources. -/
def sourceFields : List (Field Sources) := [
  field "roots" texts? fun s v => { s with roots := v },
  field "memoize" flag? fun s v => { s with memoizes := v }]

/-- The fields of the section on compiled output. -/
def cacheFields : List (Field Caching) := [
  field "kind" (choice? Cache.Kind.names) fun s v => { s with kind := v },
  field "dir" text? fun s v => { s with directory := some v }]

/-- The fields of the section on processes. -/
def sessionFields : List (Field Session) := [
  field "program" text? fun s v => { s with program := some v },
  field "max_concurrent" count? fun s v => { s with limit := v }]

/-- The sections. -/
def sections : List (Field Settings) := [
  field "bridge" (takeSection bridgeFields {}) fun s v => { s with bridge := v },
  field "compiler" (takeSection compilerFields {}) fun s v => { s with compiler := v },
  field "sources" (takeSection sourceFields {}) fun s v => { s with sources := v },
  field "cache" (takeSection cacheFields {}) fun s v => { s with cache := v },
  field "session" (takeSection sessionFields {}) fun s v => { s with session := v }]

/-- The settings of a document. -/
def ofText (text : String) : Except SettingsError Settings :=
  match (Toml.parse? text).bind (takeTable sections {}) with
  | some s => s.validate
  | none => .error .malformed

end PipedCompiler.Settings
