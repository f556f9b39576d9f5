import PipedCompiler.Cache.Base64Url
import PipedCompiler.Cache.Sha256
import PipedCompiler.Options
import PipedCompiler.Text.JsonValue

/-!
# Digests and keys

A compile is known by a digest of all that decides its output: the root, what the root holds, and
the options.
-/

namespace PipedCompiler

open PipedCompiler.Text

/-- The options as a JSON value. -/
def CompileOptions.json (o : CompileOptions) : JsonValue :=
  .object [("target", .string o.target.name), ("stages", .string o.stages.name),
    ("lib_layout", .string o.libraryLayout.name), ("new_line", .string o.newLine.name),
    ("no_default_lib", .bool o.omitsDefaultLibrary),
    ("supports_exists_query", .bool o.asksExistence)]

namespace Cache

/-- The digest of some bytes, as a name. -/
def digestBytes (bs : Bytes) : String :=
  String.ofList (Base64Url.encode (Sha256.digest bs))

/-- The digest of a value. -/
def digestJson (v : JsonValue) : String :=
  digestBytes (Utf8.encode v.chars)

/-- What decides the output of a compile. -/
def keyMaterial (root : String) (source : Bytes) (o : CompileOptions) : JsonValue :=
  .object [("root", .string root), ("source", .string (digestBytes source)), ("options", o.json)]

/-- The key of a compile. -/
def key (root : String) (source : Bytes) (o : CompileOptions) : String :=
  digestJson (keyMaterial root source o)

end Cache

end PipedCompiler
