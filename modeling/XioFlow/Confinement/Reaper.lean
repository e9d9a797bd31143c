/-
  XioFlow.Confinement.Reaper

  What `xioflow-reaper` makes of a list of writable roots.

  The roots reach the helper as one text, the second argument of
  `--landlock-exec` or the variable `XIOFLOW_LANDLOCK_WRITE_ROOTS`, and it cuts
  the text at its colons again.  The kernel is what `open` finds, which of the
  files found are directories, and which rules `landlock_add_rule` takes.
-/

import XioFlow.Capability.Paths

namespace XioFlow

open Lib

namespace Confinement

/-! ## The host -/

/-- The file system as the driver sees it, and as the helper does. -/
structure Host where
  fs : FileSystem
  /-- The real path is one of a directory. -/
  isDir : Path → Bool
  /-- `open(path, O_PATH)` in the working directory of the helper: the real path of what it finds. -/
  opens : String → Option Path

/-- The files that are always to be writable. -/
def landlockDevices : List Path := [["dev", "null"], ["dev", "zero"], ["dev", "tty"]]

/-- What every file system keeps to. -/
structure Host.Sound (h : Host) : Prop where
  /-- What is found lies in directories. -/
  found : ∀ path real outer, h.opens path = some real → outer <+: real → outer ≠ real →
    h.isDir outer = true
  root : h.isDir [] = true
  opened : ∀ dir, h.isDir dir = true → h.opens (renderPath dir) = some dir
  /-- Names are names. -/
  proper : ∀ path, ∀ name ∈ h.fs.realPath (h.fs.resolve path), ProperName name
  /-- The devices are no directories, and no other names of other files. -/
  devices : ∀ device ∈ landlockDevices, h.isDir device = false ∧
    (h.opens (renderPath device) = none ∨ h.opens (renderPath device) = some device)

theorem Host.Sound.above {h : Host} (hs : h.Sound) {outer inner : Path} (hbelow : outer <+: inner)
    (hdir : h.isDir inner = true) : h.isDir outer = true := by
  by_cases heq : outer = inner
  · rw [heq]
    exact hdir
  · exact hs.found _ inner outer (hs.opened inner hdir) hbelow heq

/-! ## Access rights -/

/-- `__u64 allowed_access` -/
abbrev Access := BitVec 64

namespace Access

def execute : Access := 1#64 <<< 0
def writeFile : Access := 1#64 <<< 1
def readFile : Access := 1#64 <<< 2
def readDir : Access := 1#64 <<< 3
def removeDir : Access := 1#64 <<< 4
def removeFile : Access := 1#64 <<< 5
def makeChar : Access := 1#64 <<< 6
def makeDir : Access := 1#64 <<< 7
def makeReg : Access := 1#64 <<< 8
def makeSock : Access := 1#64 <<< 9
def makeFifo : Access := 1#64 <<< 10
def makeBlock : Access := 1#64 <<< 11
def makeSym : Access := 1#64 <<< 12
def refer : Access := 1#64 <<< 13
def truncate : Access := 1#64 <<< 14

/-- `read_access` -/
def read : Access := execute ||| readFile ||| readDir

/-- `dir_write_access`, which grows with the version of the interface. -/
def dirWrite (abi : Int) : Access :=
  let access := writeFile ||| removeDir ||| removeFile ||| makeChar ||| makeDir ||| makeReg |||
    makeSock ||| makeFifo ||| makeBlock ||| makeSym
  let access := if abi ≥ 2 then access ||| refer else access
  if abi ≥ 3 then access ||| truncate else access

/-- `file_write_access` -/
def fileWrite (abi : Int) : Access := if abi ≥ 3 then writeFile ||| truncate else writeFile

/-- `handled_access_fs` of the rule set -/
def handled (abi : Int) : Access := read ||| dirWrite abi

end Access

/-! ## The rule set -/

/-- The Landlock of the kernel. -/
structure Kernel where
  /-- `landlock_abi_version`, below 1 without Landlock -/
  abi : Int
  /-- `landlock_add_rule` takes the rights for a directory, or for another file. -/
  takes : Bool → Access → Bool

/-- A directory can be given any of the rights that the rule set handles. -/
def Kernel.Documented (k : Kernel) : Prop :=
  ∀ access, access ≠ 0 → access &&& ~~~ Access.handled k.abi = 0 → k.takes true access = true

/-- `LANDLOCK_RULE_PATH_BENEATH` -/
@[ext]
structure Rule where
  beneath : Path
  access : Access
  deriving DecidableEq

def addLandlockPath (h : Host) (k : Kernel) (dirAccess fileAccess : Access) (path : String) :
    Option Rule :=
  match h.opens path with
  | none => none
  | some real =>
    let access := if h.isDir real then dirAccess else fileAccess
    if k.takes (h.isDir real) access then some ⟨real, access⟩ else none

/-- `strtok_r(copy, ":", &saveptr)` until it returns nothing -/
def tokens (colonRoots : String) : List String :=
  ((splitAtChar ':' colonRoots.toList).filter fun token => token ≠ []).map String.ofList

/-- The rules that `apply_landlock` restricts the process to, or nothing where it returns -1.
    A device or a root whose rule is not added is passed over. -/
def applyLandlock (h : Host) (k : Kernel) (colonRoots : String) : Option (List Rule) :=
  if k.abi < 1 then none
  else match addLandlockPath h k .read .read "/" with
    | none => none
    | some slash => some (slash :: (landlockDevices.map renderPath ++ tokens colonRoots).filterMap
        (addLandlockPath h k (.read ||| .dirWrite k.abi) (.read ||| .fileWrite k.abi)))

/-- The rights are granted at a path: each by a rule for the path or for a directory above it. -/
def allows (rules : List Rule) (access : Access) (path : Path) : Bool :=
  (List.range 64).all fun i => !access.getLsbD i ||
    rules.any fun rule => rule.beneath.isPrefixOf path && rule.access.getLsbD i

/-! ## Starting the command -/

/-- What becomes of a call of a helper. -/
inductive Ran where
  /-- It exits by itself. -/
  | exits (code : Nat)
  /-- It executes a command, which can write to the paths. -/
  | execs (argv : List String) (writes : Path → Bool)

/-- What can be written under the rules: below a directory, or to another file. -/
def writable (h : Host) (k : Kernel) (rules : List Rule) (path : Path) : Bool :=
  allows rules (if h.isDir path then .dirWrite k.abi else .fileWrite k.abi) path

def execUnder (h : Host) (k : Kernel) (colonRoots : String) (argv : List String) : Ran :=
  match applyLandlock h k colonRoots with
  | none => .exits 126
  | some rules => .execs argv (writable h k rules)

/-- `run_child`, once the gate has opened. -/
def runChild (h : Host) (k : Kernel) (landlockRoots : Option String) (argv : List String) : Ran :=
  match landlockRoots with
  | some roots => execUnder h k roots argv
  | none => .execs argv fun _ => true

/-- `--landlock-exec <colon_roots> [--] <file> [args...]` -/
def landlockExec (h : Host) (k : Kernel) : List String → Ran
  | roots :: target :: argv =>
    if target = "--" then
      if argv = [] then .exits 64 else execUnder h k roots argv
    else execUnder h k roots (target :: argv)
  | _ => .exits 64

/-- `main` of the helper, on the arguments behind its name. -/
def reaperMain (h : Host) (k : Kernel) (landlockRoots : Option String) : List String → Ran
  | [] => .exits 64
  | arg :: args =>
    if arg = "--check-landlock" then .exits (if k.abi ≥ 1 then 0 else 1)
    else if arg = "--landlock-exec" then landlockExec h k args
    else runChild h k landlockRoots (arg :: args)

/-! ## What the rules grant -/

section Rules

variable {h : Host} {k : Kernel}

theorem read_not_write : Access.read.getLsbD 1 = false := by decide

theorem dirWrite_writes (abi : Int) : (Access.dirWrite abi).getLsbD 1 = true := by
  unfold Access.dirWrite
  split <;> split <;> decide

theorem fileWrite_writes (abi : Int) : (Access.fileWrite abi).getLsbD 1 = true := by
  unfold Access.fileWrite
  split <;> decide

/-- A right to write to a file is one of those for directories. -/
theorem dirWrite_fileWrite (abi : Int) :
    Access.read ||| Access.dirWrite abi =
      (Access.read ||| Access.dirWrite abi) ||| Access.fileWrite abi := by
  unfold Access.dirWrite Access.fileWrite
  by_cases h2 : abi ≥ 2 <;> by_cases h3 : abi ≥ 3 <;> simp only [h2, h3, if_true, if_false] <;>
    decide

theorem takes_read (hk : k.Documented) : k.takes true .read = true := by
  refine hk _ (by decide) ?_
  unfold Access.handled Access.dirWrite
  split <;> split <;> decide

theorem takes_dirWrite (hk : k.Documented) : k.takes true (.read ||| .dirWrite k.abi) = true := by
  refine hk _ ?_ ?_
  · unfold Access.dirWrite
    split <;> split <;> decide
  · unfold Access.handled Access.dirWrite
    split <;> split <;> decide

/-- A rule above the path that has the rights among others grants them. -/
theorem allows_of_rule {rules : List Rule} {rule : Rule} {other access : Access} {path : Path}
    (hmem : rule ∈ rules) (habove : rule.beneath <+: path) (haccess : rule.access = other ||| access) :
    allows rules access path = true := by
  unfold allows
  refine List.all_eq_true.2 fun i _ => ?_
  cases hbit : access.getLsbD i with
  | false => rfl
  | true =>
    rw [Bool.not_true, Bool.false_or, List.any_eq_true]
    refine ⟨rule, hmem, ?_⟩
    rw [Bool.and_eq_true, List.isPrefixOf_iff_prefix, haccess, BitVec.getLsbD_or, hbit,
      Bool.or_true]
    exact ⟨habove, rfl⟩

/-- What can be written lies below a rule that grants `WRITE_FILE`. -/
theorem rule_of_allows {rules : List Rule} {access : Access} {path : Path}
    (hallows : allows rules access path = true) (hwrites : access.getLsbD 1 = true) :
    ∃ rule ∈ rules, rule.beneath <+: path ∧ rule.access.getLsbD 1 = true := by
  have hbit := List.all_eq_true.1 hallows 1 (by decide)
  rw [hwrites, Bool.not_true, Bool.false_or, List.any_eq_true] at hbit
  obtain ⟨rule, hmem, hrule⟩ := hbit
  rw [Bool.and_eq_true, List.isPrefixOf_iff_prefix] at hrule
  exact ⟨rule, hmem, hrule⟩

/-- A rule is added exactly for what is opened and taken. -/
theorem addLandlockPath_eq_some {dirAccess fileAccess : Access} {path : String} {rule : Rule} :
    addLandlockPath h k dirAccess fileAccess path = some rule ↔
      h.opens path = some rule.beneath ∧
        rule.access = (if h.isDir rule.beneath then dirAccess else fileAccess) ∧
        k.takes (h.isDir rule.beneath) rule.access = true := by
  unfold addLandlockPath
  cases hopens : h.opens path with
  | none => simp
  | some real =>
    simp only [Option.ite_none_right_eq_some, Option.some.injEq]
    constructor
    · rintro ⟨htakes, rfl⟩
      exact ⟨rfl, rfl, htakes⟩
    · rintro ⟨rfl, haccess, htakes⟩
      rw [haccess] at htakes
      exact ⟨htakes, Rule.ext rfl haccess.symm⟩

end Rules

/-! ## Which roots the text conveys -/

/-- The directories, and the fixed devices that are there. -/
def Host.Subject (h : Host) (path : Path) : Prop :=
  h.isDir path = true ∨ (path ∈ landlockDevices ∧ h.opens (renderPath path) = some path)

/-- The path lies below one of the roots, or is of a fixed path. -/
def Granted (fixed reals : List Path) (path : Path) : Prop :=
  (∃ real ∈ reals, real <+: path) ∨ ∃ place ∈ fixed, place <+: path

/-- The pieces between the colons name the directories of the roots and no others, and the kernel
    takes the rule for the devices or a piece covers them. -/
structure Conveys (h : Host) (k : Kernel) (colonRoots : String) (reals : List Path) : Prop where
  noMore : ∀ token ∈ tokens colonRoots, ∀ dir, h.opens token = some dir → h.isDir dir = true →
    ∃ real ∈ reals, real <+: dir
  noLess : ∀ real ∈ reals, h.isDir real = true →
    ∃ token ∈ tokens colonRoots, ∃ dir, h.opens token = some dir ∧ dir <+: real
  devices : ∀ device ∈ landlockDevices, h.opens (renderPath device) = some device →
    k.takes false (.read ||| .fileWrite k.abi) = true ∨
      ∃ token ∈ tokens colonRoots, ∃ dir, h.opens token = some dir ∧ h.isDir dir = true ∧
        dir <+: device

section Conveys

variable {h : Host} {k : Kernel} {colonRoots : String} {rules : List Rule} {path : Path}

theorem applyLandlock_some (hs : h.Sound) (hk : k.Documented) (habi : 1 ≤ k.abi)
    (colonRoots : String) : ∃ rules, applyLandlock h k colonRoots = some rules := by
  have hslash : addLandlockPath h k .read .read "/" = some ⟨[], .read⟩ := by
    refine addLandlockPath_eq_some.2 ⟨hs.opened [] hs.root, ?_, ?_⟩
    · rw [ite_self]
    · rw [hs.root]
      exact takes_read hk
  unfold applyLandlock
  rw [if_neg (by omega), hslash]
  exact ⟨_, rfl⟩

/-- A rule that lets something be written is one of a device or of a piece of the text. -/
theorem rule_of_applied (happlied : applyLandlock h k colonRoots = some rules) {rule : Rule}
    (hmem : rule ∈ rules) (hwrites : rule.access.getLsbD 1 = true) :
    ∃ name ∈ landlockDevices.map renderPath ++ tokens colonRoots,
      h.opens name = some rule.beneath ∧
        k.takes (h.isDir rule.beneath) rule.access = true ∧
        rule.access = (if h.isDir rule.beneath then .read ||| .dirWrite k.abi
          else .read ||| .fileWrite k.abi) := by
  unfold applyLandlock at happlied
  split at happlied
  · cases happlied
  · split at happlied
    · cases happlied
    · rename_i slash hslash
      obtain rfl := Option.some.inj happlied
      rcases List.mem_cons.1 hmem with rfl | hmem
      · -- the rule for `/` grants reading only
        rw [(addLandlockPath_eq_some.1 hslash).2.1, ite_self, read_not_write] at hwrites
        cases hwrites
      · obtain ⟨name, hname, hadd⟩ := List.mem_filterMap.1 hmem
        obtain ⟨hopens, haccess, htakes⟩ := addLandlockPath_eq_some.1 hadd
        exact ⟨name, hname, hopens, htakes, haccess⟩

theorem rule_mem_applied (happlied : applyLandlock h k colonRoots = some rules) {name : String}
    {real : Path} (hname : name ∈ landlockDevices.map renderPath ++ tokens colonRoots)
    (hopens : h.opens name = some real) {access : Access}
    (haccess : access = (if h.isDir real then .read ||| .dirWrite k.abi
      else .read ||| .fileWrite k.abi)) (htakes : k.takes (h.isDir real) access = true) :
    ⟨real, access⟩ ∈ rules := by
  unfold applyLandlock at happlied
  split at happlied
  · cases happlied
  · split at happlied
    · cases happlied
    · obtain rfl := Option.some.inj happlied
      refine List.mem_cons_of_mem _ (List.mem_filterMap.2 ⟨name, hname, ?_⟩)
      exact addLandlockPath_eq_some.2 ⟨hopens, haccess, htakes⟩

/-- Below a directory that a piece names everything can be written. -/
theorem writable_of_token (hk : k.Documented) (happlied : applyLandlock h k colonRoots = some rules)
    {token : String} (htoken : token ∈ tokens colonRoots) {dir : Path}
    (hopens : h.opens token = some dir) (hdir : h.isDir dir = true) (hbelow : dir <+: path) :
    writable h k rules path = true := by
  have hmem := rule_mem_applied happlied (List.mem_append_right _ htoken) hopens
    (by rw [hdir, if_pos rfl])
    (by rw [hdir]; exact takes_dirWrite hk)
  unfold writable
  split
  · exact allows_of_rule hmem hbelow rfl
  · exact allows_of_rule hmem hbelow (dirWrite_fileWrite k.abi)

/-- What can be written lies below a piece, or is a device whose rule the kernel took. -/
theorem token_of_writable (hs : h.Sound) (happlied : applyLandlock h k colonRoots = some rules)
    (hwritable : writable h k rules path = true) :
    (∃ token ∈ tokens colonRoots, ∃ dir, h.opens token = some dir ∧ h.isDir dir = true ∧
      dir <+: path) ∨
      (h.isDir path = false ∧ k.takes false (.read ||| .fileWrite k.abi) = true) := by
  have hbit : (if h.isDir path then Access.dirWrite k.abi else .fileWrite k.abi).getLsbD 1 =
      true := by
    split
    · exact dirWrite_writes k.abi
    · exact fileWrite_writes k.abi
  obtain ⟨rule, hmem, hbelow, hwrites⟩ := rule_of_allows hwritable hbit
  obtain ⟨name, hname, hopens, htakes, haccess⟩ := rule_of_applied happlied hmem hwrites
  cases hdir : h.isDir rule.beneath with
  | false =>
    rw [haccess, hdir] at htakes
    refine .inr ⟨?_, htakes⟩
    -- below a file there is no directory
    rw [Bool.eq_false_iff]
    intro hpath
    rw [hs.above hbelow hpath] at hdir
    cases hdir
  | true =>
    rcases List.mem_append.1 hname with hdevice | htoken
    · -- a device is no directory
      obtain ⟨device, hmemDevice, rfl⟩ := List.mem_map.1 hdevice
      obtain ⟨hfile, hnone | hsome⟩ := hs.devices device hmemDevice
      · rw [hnone] at hopens
        cases hopens
      · obtain rfl := Option.some.inj (hsome.symm.trans hopens)
        rw [hfile] at hdir
        cases hdir
    · exact .inl ⟨name, htoken, rule.beneath, hopens, hdir, hbelow⟩

/-- The rules grant exactly the roots and the devices if and only if the text conveys them. -/
theorem writable_iff_granted_iff (hs : h.Sound) (hk : k.Documented)
    (happlied : applyLandlock h k colonRoots = some rules) (reals : List Path) :
    (∀ path, h.Subject path →
        (writable h k rules path = true ↔ Granted landlockDevices reals path)) ↔
      Conveys h k colonRoots reals := by
  have hdirDevice : ∀ {dir}, h.isDir dir = true → ¬ ∃ device ∈ landlockDevices, device <+: dir := by
    rintro dir hdir ⟨device, hmem, hbelow⟩
    have hfile := (hs.devices device hmem).1
    rw [hs.above hbelow hdir] at hfile
    cases hfile
  constructor
  · intro hexact
    refine ⟨fun token htoken dir hopens hdir => ?_, fun real hreal hdir => ?_,
      fun device hmem hfound => ?_⟩
    · have hwritable := writable_of_token hk happlied htoken hopens hdir (List.prefix_refl dir)
      rcases (hexact dir (.inl hdir)).1 hwritable with hgranted | hdevice
      · exact hgranted
      · exact absurd hdevice (hdirDevice hdir)
    · have hwritable := (hexact real (.inl hdir)).2 (.inl ⟨real, hreal, List.prefix_refl real⟩)
      rcases token_of_writable hs happlied hwritable with ⟨token, htoken, dir, hopens, -, hbelow⟩ |
        ⟨hfile, -⟩
      · exact ⟨token, htoken, dir, hopens, hbelow⟩
      · rw [hdir] at hfile
        cases hfile
    · have hwritable := (hexact device (.inr ⟨hmem, hfound⟩)).2
        (.inr ⟨device, hmem, List.prefix_refl device⟩)
      exact (token_of_writable hs happlied hwritable).symm.imp And.right id
  · rintro hconveys path (hdir | ⟨hdevice, hfound⟩)
    · constructor
      · intro hwritable
        rcases token_of_writable hs happlied hwritable with
          ⟨token, htoken, dir, hopens, hdir', hbelow⟩ | ⟨hfile, -⟩
        · obtain ⟨real, hreal, habove⟩ := hconveys.noMore token htoken dir hopens hdir'
          exact .inl ⟨real, hreal, habove.trans hbelow⟩
        · rw [hdir] at hfile
          cases hfile
      · rintro (⟨real, hreal, hbelow⟩ | hdevice)
        · have hrealDir := hs.above hbelow hdir
          obtain ⟨token, htoken, dir, hopens, habove⟩ := hconveys.noLess real hreal hrealDir
          exact writable_of_token hk happlied htoken hopens (hs.above habove hrealDir)
            (habove.trans hbelow)
        · exact absurd hdevice (hdirDevice hdir)
    · refine iff_of_true ?_ (.inr ⟨path, hdevice, List.prefix_refl path⟩)
      rcases hconveys.devices path hdevice hfound with htakes | ⟨token, htoken, dir, hopens, hdir,
        hbelow⟩
      · have hfile := (hs.devices path hdevice).1
        have hmem := rule_mem_applied happlied
          (List.mem_append_left _ (List.mem_map_of_mem hdevice)) hfound
          (by rw [hfile, if_neg Bool.false_ne_true]) (by rw [hfile]; exact htakes)
        unfold writable
        rw [hfile, if_neg Bool.false_ne_true]
        exact allows_of_rule hmem (List.prefix_refl path) rfl
      · exact writable_of_token hk happlied htoken hopens hdir hbelow

end Conveys

end Confinement
end XioFlow
