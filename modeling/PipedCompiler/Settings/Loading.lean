import PipedCompiler.Settings.Reading

/-!
# Where settings come from

A file that is named, or the first one of the usual places; without any, all is as usual.
-/

namespace PipedCompiler

open PipedCompiler.Text

/-- The variable that names a file of settings. -/
def Settings.fileVariable : String := "SRCBRIDGE_CONFIG"

/-- The file of settings in the current directory. -/
def Settings.localFile : String := "srcbridge.toml"

namespace Environment

/-- The directory for files of some kind that belong to the user: what the variable of that name
says, if that is an absolute path, or else a directory at home. -/
def userDirectory? (env : Environment) (name usual : String) : Option String :=
  match env.text? name with
  | some path => if FileTree.isAbsolute path then some path else atHome
  | none => atHome
where
  atHome : Option String :=
    (env.text? "HOME").bind fun home =>
      if home = "" then none else some (FileTree.join home usual)

/-- The directory for settings. -/
def settingsDirectory? (env : Environment) : Option String :=
  env.userDirectory? "XDG_CONFIG_HOME" ".config"

/-- The directory for compiled output, if the settings do not say otherwise. -/
def cacheDirectory? (env : Environment) : Option String :=
  (env.userDirectory? "XDG_CACHE_HOME" ".cache").map (FileTree.join · "srcbridge")

end Environment

namespace Settings

/-- The settings of a file. -/
def ofFile (t : FileTree) (path : String) : Except SettingsError Settings :=
  match t.find? path with
  | none => .error (.fileNotFound path)
  | some .directory => .error (.unreadable "Is a directory (os error 21)")
  | some (.unreadable cause) => .error (.unreadable cause)
  | some (.file bs) =>
    match Utf8.decode bs with
    | .ok cs => ofText (String.ofList cs)
    | .error _ => .error (.unreadable "stream did not contain valid UTF-8")

/-- The file that settings are read from when none is given. -/
def usualFile? (t : FileTree) (env : Environment) : Option String :=
  match env.text? fileVariable with
  | some path => some path
  | none =>
    if (t.find? localFile).isSome then some localFile
    else
      (env.settingsDirectory?.map fun directory =>
        FileTree.join (FileTree.join directory "srcbridge") "config.toml").filter fun path =>
          (t.find? path).isSome

/-- The settings of a file, or of the usual one. -/
def load (t : FileTree) (env : Environment) (file : Option String) :
    Except SettingsError Settings :=
  match file.orElse fun _ => usualFile? t env with
  | some path => ofFile t path
  | none => .ok {}

end Settings

end PipedCompiler
