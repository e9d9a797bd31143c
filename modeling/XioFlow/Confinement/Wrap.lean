/-
  XioFlow.Confinement.Wrap

  The drivers that confine a command to writable roots, and what the tools
  they hand the command to make of it.

  Bubblewrap and `sandbox-exec` are parameters: what they read of their
  arguments, of which their documentation says what the drivers rely on.
-/

import XioFlow.Confinement.Reaper
import XioFlow.Lib.DirTree
import XioFlow.Supervisor.Fingerprint

namespace XioFlow

open Lib
open Supervisor (StructuredCommand)

namespace Confinement

/-! ## The tools -/

/-- A mount of `bwrap`, with its paths as they were given. -/
inductive Mount where
  | roBind (source dest : String)
  | bind (source dest : String)
  | dev (dest : String)
  | proc (dest : String)
  deriving DecidableEq

namespace Mount

def dest : Mount → String
  | roBind _ dest => dest
  | bind _ dest => dest
  | dev dest => dest
  | proc dest => dest

def source? : Mount → Option String
  | roBind source _ => some source
  | bind source _ => some source
  | _ => none

def writable : Mount → Bool
  | roBind _ _ => false
  | _ => true

end Mount

/-- What `bwrap` reads of its arguments: the mounts in their order, and what it executes. -/
structure Bubblewrap where
  parse : List String → Option (List Mount × List String)

def Bubblewrap.pushed (mount : Mount) (read : Option (List Mount × List String)) :
    Option (List Mount × List String) :=
  read.map fun r => (mount :: r.1, r.2)

/-- Each option takes the arguments behind it as they are, and `--` ends the options. -/
structure Bubblewrap.Documented (b : Bubblewrap) : Prop where
  roBind : ∀ source dest args, b.parse ("--ro-bind" :: source :: dest :: args) =
    pushed (.roBind source dest) (b.parse args)
  bind : ∀ source dest args, b.parse ("--bind" :: source :: dest :: args) =
    pushed (.bind source dest) (b.parse args)
  dev : ∀ dest args, b.parse ("--dev" :: dest :: args) = pushed (.dev dest) (b.parse args)
  proc : ∀ dest args, b.parse ("--proc" :: dest :: args) = pushed (.proc dest) (b.parse args)
  command : ∀ argv, b.parse ("--" :: argv) = some ([], argv)

/-- The last mount at or above a path decides. -/
def mountWrites (h : Host) (mounts : List Mount) (path : Path) : Bool :=
  match (mounts.filter fun mount => (h.fs.resolve mount.dest).isPrefixOf path).getLast? with
  | none => false
  | some mount => mount.writable

/-- `bwrap`, which gives up where it cannot find what to bind. -/
def bwrapMain (h : Host) (b : Bubblewrap) (args : List String) : Ran :=
  match b.parse args with
  | none => .exits 1
  | some (mounts, argv) =>
    if mounts.all fun mount => mount.source?.all fun source => (h.opens source).isSome then
      .execs argv (mountWrites h mounts)
    else .exits 1

/-- A form of a sandbox profile. -/
inductive Form where
  | version
  | allowDefault
  | denyWrites
  /-- `(allow file-write* (subpath TEXT))`, with the path that the text stands for -/
  | allowWrites (place : Option Path)
  deriving DecidableEq

/-- What the form says of writing to a path. -/
def Form.decides? (path : Path) : Form → Option Bool
  | version => none
  | allowDefault => some true
  | denyWrites => some false
  | allowWrites none => none
  | allowWrites (some place) => if place.isPrefixOf path then some true else none

/-- The last form that says something decides. -/
def profileWrites (forms : List Form) (path : Path) : Bool :=
  (forms.filterMap (Form.decides? path)).getLast?.getD true

/-- `JSON.stringify` of a character in a string -/
def quoteChar (c : Char) : List Char :=
  if c = '"' then ['\\', '"']
  else if c = '\\' then ['\\', '\\']
  else if c.toNat = 0x08 then ['\\', 'b']
  else if c.toNat = 0x0c then ['\\', 'f']
  else if c = '\n' then ['\\', 'n']
  else if c = '\r' then ['\\', 'r']
  else if c = '\t' then ['\\', 't']
  else if c.toNat < 0x20 then
    "\\u00".toList ++ [Nat.digitChar (c.toNat / 16), Nat.digitChar (c.toNat % 16)]
  else [c]

def jsonStringify (s : String) : String :=
  String.ofList ('"' :: (s.toList.flatMap quoteChar ++ ['"']))

/-- `sandbox-exec`, with the language of its profiles. -/
structure SandboxExec where
  /-- The profile among the arguments, and what is executed. -/
  start : List String → Option (String × List String)
  profile : String → Option (List Form)
  /-- The path that the language reads in a string written by `JSON.stringify`. -/
  place : String → Option Path

/-- `profileLines.join('\n')` -/
def profileText (roots : List String) : String :=
  String.ofList (joinAtChar '\n' ([
    "(version 1)".toList, "(allow default)".toList, "(deny file-write*)".toList,
    "(allow file-write* (subpath \"/dev\"))".toList] ++ roots.map fun root =>
      "(allow file-write* (subpath ".toList ++ (jsonStringify root).toList ++ "))".toList))

/-- The word is an option for a command line that is read with `getopt`. -/
def optionLike (word : String) : Bool := hasPrefix "-" word && word ≠ "-"

/-- The first word that is no option begins the command. -/
structure SandboxExec.Documented (t : SandboxExec) : Prop where
  command : ∀ profile word args, optionLike word = false →
    t.start ("-p" :: profile :: word :: args) = some (profile, word :: args)
  option : ∀ profile word args started, optionLike word = true →
    t.start ("-p" :: profile :: word :: args) = some started → started.2 ≠ word :: args
  profile : ∀ roots, t.profile (profileText roots) = some
    (.version :: .allowDefault :: .denyWrites :: .allowWrites (some ["dev"]) ::
      roots.map fun root => .allowWrites (t.place root))

def sandboxMain (t : SandboxExec) (args : List String) : Ran :=
  match t.start args with
  | none => .exits 64
  | some (profile, argv) =>
    match t.profile profile with
    | none => .exits 65
    | some forms => .execs argv (profileWrites forms)

/-! ## The drivers -/

inductive Platform where
  | linux | darwin
  deriving DecidableEq

/-- A machine with its tools. -/
structure Machine where
  platform : Platform
  host : Host
  kernel : Kernel
  /-- `locateReaperHelper` -/
  helper : Option String
  /-- `LandlockConfinementDriver.probe` has been awaited. -/
  probed : Bool
  /-- `findExecutable('bwrap')` -/
  bwrapPath : Option String
  bwrap : Bubblewrap
  /-- `/usr/bin/sandbox-exec` exists. -/
  hasSandboxExec : Bool
  sandboxExec : SandboxExec

inductive Driver where
  | landlock | bubblewrap | sandboxExec
  /-- The helper of every process, by `XIOFLOW_LANDLOCK_WRITE_ROOTS` -/
  | environment
  deriving DecidableEq

/-- A command as it is started. -/
structure Launch where
  command : StructuredCommand
  /-- `XIOFLOW_LANDLOCK_WRITE_ROOTS` in its environment -/
  landlockRoots : Option String := none

def notAvailable (name : String) : KernelError :=
  .error ("Confinement driver '" ++ name ++ "' is not available on this platform")

def notProbed : KernelError :=
  .error ("Confinement driver 'landlock' has not been probed; await " ++
    "LandlockConfinementDriver.probe() before wrapping a command")

/-- `roots.join(':')` -/
def joinRoots (roots : List String) : String :=
  String.ofList (joinAtChar ':' (roots.map String.toList))

namespace Machine

/-- `getAbiVersion`: what the probe has cached -/
def abiVersion (m : Machine) : Int :=
  if m.platform = .linux ∧ m.helper.isSome = true ∧ m.probed = true then m.kernel.abi else 0

def realRoots (m : Machine) (roots : List String) : List String :=
  roots.map m.host.fs.resolveRealPath

/-- `LandlockConfinementDriver.wrap` -/
def landlockWrap (m : Machine) (command : StructuredCommand) (roots : List String) :
    Except KernelError StructuredCommand :=
  match m.helper with
  | none => .error (notAvailable "landlock")
  | some helper =>
    if m.platform ≠ .linux then .error (notAvailable "landlock")
    else if m.probed = false then .error notProbed
    else if m.abiVersion < 1 then .error (notAvailable "landlock")
    else .ok { command with
      execPath := helper
      args := ["--landlock-exec", joinRoots (m.realRoots roots), "--", command.execPath] ++
        command.args }

/-- `BubblewrapConfinementDriver.wrap` -/
def bubblewrapWrap (m : Machine) (command : StructuredCommand) (roots : List String) :
    Except KernelError StructuredCommand :=
  match m.bwrapPath with
  | none => .error (notAvailable "bubblewrap")
  | some bwrapPath =>
    if m.platform ≠ .linux then .error (notAvailable "bubblewrap")
    else .ok { command with
      execPath := bwrapPath
      args := ["--ro-bind", "/", "/", "--dev", "/dev", "--proc", "/proc"] ++
        (m.realRoots roots).flatMap (fun root => ["--bind", root, root]) ++
          ("--" :: command.execPath :: command.args) }

/-- `SandboxExecConfinementDriver.wrap` -/
def sandboxExecWrap (m : Machine) (command : StructuredCommand) (roots : List String) :
    Except KernelError StructuredCommand :=
  if m.platform = .darwin ∧ m.hasSandboxExec = true then
    .ok { command with
      execPath := "/usr/bin/sandbox-exec"
      args := ["-p", profileText (m.realRoots roots), command.execPath] ++ command.args }
  else .error (notAvailable "sandbox-exec")

/-- `fs.realpathSync(r)`, and `path.resolve(r)` where it throws -/
def environmentRoot (m : Machine) (root : String) : String :=
  renderPath ((m.host.fs.realpathSync (m.host.fs.resolve root)).getD (m.host.fs.resolve root))

/-- A command of a wrapped agent. -/
def environmentLaunch (m : Machine) (command : StructuredCommand) (roots : List String) : Launch :=
  if m.platform = .linux ∧ m.abiVersion ≥ 1 then
    ⟨command, some (joinRoots (roots.map m.environmentRoot))⟩
  else ⟨command, none⟩

def launch (m : Machine) (driver : Driver) (command : StructuredCommand) (roots : List String) :
    Except KernelError Launch :=
  match driver with
  | .landlock => (m.landlockWrap command roots).map fun wrapped => ⟨wrapped, none⟩
  | .bubblewrap => (m.bubblewrapWrap command roots).map fun wrapped => ⟨wrapped, none⟩
  | .sandboxExec => (m.sandboxExecWrap command roots).map fun wrapped => ⟨wrapped, none⟩
  | .environment => .ok (m.environmentLaunch command roots)

/-- The tool that the driver names gets the arguments; in the last form it is the helper of the
    process driver, whose arguments are the command. -/
def run (m : Machine) (driver : Driver) (launched : Launch) : Ran :=
  match driver with
  | .landlock => reaperMain m.host m.kernel launched.landlockRoots launched.command.args
  | .bubblewrap => bwrapMain m.host m.bwrap launched.command.args
  | .sandboxExec => sandboxMain m.sandboxExec launched.command.args
  | .environment => reaperMain m.host m.kernel launched.landlockRoots
      (launched.command.execPath :: launched.command.args)

end Machine

end Confinement
end XioFlow
