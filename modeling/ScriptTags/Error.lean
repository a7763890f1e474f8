/-!
# Errors

What can go wrong around a scan: files, languages, configuration, and output. Scanning itself
cannot fail. An error has a **message** and the **exit code** that a run ends with when this error
is the first it reports: `2` for what the caller asked wrongly, `3` for the configuration, `1`
otherwise.
-/

namespace ScriptTags

/-- An **error**. -/
inductive Error where
  | fileNotFound (path : String)
  | unsupportedLanguage (extension : String)
  | isDirectory (path : String)
  /-- The configuration is read, and does not say what a configuration can say. -/
  | config (path : String) (reason : String)
  /-- The configuration is not well-formed TOML. -/
  | configSyntax (path : String) (reason : String)
  | output (reason : String)
  /-- The file system refuses to give what is there. A `Disk` gives every file that it has. -/
  | io (reason : String)
  deriving DecidableEq, Repr

namespace Error

/-- The **message** of an error. -/
def message : Error → String
  | fileNotFound path => "file not found: " ++ path
  | unsupportedLanguage extension => "unsupported language for extension: " ++ extension
  | isDirectory path => path ++ " is a directory (use --recursive to scan directories)"
  | config path reason | configSyntax path reason =>
    "invalid configuration in " ++ path ++ ": " ++ reason
  | output reason => "failed to write output: " ++ reason
  | io reason => reason

/-- The **exit code** of a run that ends with an error. -/
def exitCode : Error → UInt8
  | unsupportedLanguage _ | isDirectory _ => 2
  | config _ _ | configSyntax _ _ => 3
  | fileNotFound _ | output _ | io _ => 1

end Error

end ScriptTags
