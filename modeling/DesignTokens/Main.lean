import DesignTokens.Build.CommandLine

/-! The program: a command line run on the disk of the machine. -/

namespace DesignTokens.Build

def goesThrough (action : IO Unit) : IO Bool := do
  try
    action
    pure true
  catch _ => pure false

def readFile (path : String) : IO (Option ByteArray) := do
  try
    pure (some (← IO.FS.readBinFile path))
  catch _ => pure none

def isFolder (path : String) : IO Bool := do
  try
    (← IO.FS.realPath path).isDir
  catch _ => pure false

def makeFolder (path : String) : IO Bool := do
  if ← goesThrough (IO.FS.createDir path) then pure true
  else isFolder path

def printReport : Report → IO Unit
  | .info text => IO.eprintln ("[INFO] " ++ text)
  | .warning text => IO.eprintln ("[WARN] " ++ text)

instance : Disk IO where
  read := readFile
  write path text := goesThrough (IO.FS.writeFile path text)
  makeFolder := makeFolder
  report := printReport

def environmentOfMachine : IO Plan.Environment := do
  let planFile ← IO.getEnv "CAST_BUILD_CONFIG"
  let tokensDir ← IO.getEnv "CAST_TOKENS_DIR"
  let outDir ← IO.getEnv "CAST_OUT_DIR"
  pure ⟨planFile, tokensDir, outDir⟩

def helpText : String :=
  "Resolve design tokens into generated theme files

Usage: cast-build [OPTIONS]

Options:
  -c, --config <CONFIG>          Build configuration file (TOML)
      --tokens-dir <TOKENS_DIR>  Directory holding the token source files
      --out-dir <OUT_DIR>        Directory to write generated files to
      --theme <THEME>            Only build the theme with this name
      --check                    Assemble every theme without writing files
  -h, --help                     Print help"

def printOutcome : Outcome → IO Unit
  | .success => pure ()
  | .help => IO.println helpText
  | .misuse => IO.eprintln "error: the arguments cannot be read; try '--help'"
  | .failure stage cause => IO.eprintln (((Outcome.failure stage cause).error?).getD "")

end DesignTokens.Build

open DesignTokens.Build in
def main (arguments : List String) : IO UInt32 := do
  let outcome : Outcome ← runCommand arguments (← environmentOfMachine)
  printOutcome outcome
  pure outcome.code.toUInt32
