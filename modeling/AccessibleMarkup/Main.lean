import AccessibleMarkup.Command.Run

/-! The program on the files of the machine. -/
namespace AccessibleMarkup

def fileErrorOf : IO.Error → FileError
  | .noFileOrDirectory .. => .notFound
  | .inappropriateType _ 20 _ => .notDirectory
  | .inappropriateType _ 21 _ => .isDirectory
  | cause => .other (toString cause)

def kindOf? : IO.FS.FileType → Option FileKind
  | .file => some .file
  | .dir => some .directory
  | _ => none

def machineFiles : FileAccess IO where
  kind? path := do
    try
      let data ← (← IO.FS.realPath path).metadata
      return kindOf? data.type
    catch _ => return none
  read path := do
    try
      match String.fromUTF8? (← IO.FS.readBinFile path) with
      | some text => return .ok text.toList
      | none => return .error .notText
    catch cause => return .error (fileErrorOf cause)
  write path text := do
    try
      IO.FS.writeFile path (String.ofList text)
      return .ok ()
    catch cause => return .error (fileErrorOf cause)
  list path := do
    try
      let entries ← (← IO.FS.realPath path).readDir
      entries.toList.filterMapM fun entry => do
        let data ← entry.path.symlinkMetadata
        return (kindOf? data.type).map fun kind => (entry.fileName, kind)
    catch _ => return []
  absolute? path := do
    try return some (← IO.FS.realPath path).toString
    catch _ => return none

def machineEnvironment : IO Environment := do
  let home := (← IO.getEnv "HOME").map fun home => Path.join home ".aria-lint"
  return {
    config := ← IO.getEnv "ARIA_LINT_CONFIG"
    globalDirectory := (← IO.getEnv "ARIA_LINT_CONFIG_DIR") <|> home }

end AccessibleMarkup

open AccessibleMarkup in
def main (arguments : List String) : IO UInt32 := do
  let result ← runProgram machineFiles (← machineEnvironment) arguments
  IO.print result.output
  match result.failure with
  | some failure => IO.eprintln failure.text
  | none => if result.status = 2 then IO.eprint Output.usage
  return result.status.toUInt32
