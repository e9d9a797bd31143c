/-
  XioFlow.Confinement.Confines

  When a confined command can write to its roots and nothing else.

  For each driver the condition is what has to survive the way from the list
  of roots to the tool: the colons of a joined list, the texts of a profile,
  and that the tool finds a root at all.
-/

import XioFlow.Confinement.Wrap

namespace XioFlow

open Lib
open Supervisor (StructuredCommand)

namespace Confinement

/-! ## What is claimed -/

/-- The paths that a driver always leaves writable.  For Bubblewrap these are `/dev` and `/proc`,
    file systems of the sandbox itself. -/
def fixedPaths : Driver → List Path
  | .landlock => landlockDevices
  | .bubblewrap => [["dev"], ["proc"]]
  | .sandboxExec => [["dev"]]
  | .environment => landlockDevices

/-- The real paths of the roots. -/
def Machine.reals (m : Machine) (roots : List String) : List Path :=
  roots.map fun root => m.host.fs.realPath (m.host.fs.resolve root)

/-- The command is executed as it is, and can write exactly below the roots and to the fixed
    paths. -/
def Confines (m : Machine) (driver : Driver) (command : StructuredCommand) (roots : List String) :
    Prop :=
  ∃ launched writes, m.launch driver command roots = .ok launched ∧
    m.run driver launched = .execs (command.execPath :: command.args) writes ∧
    ∀ path, m.host.Subject path →
      (writes path = true ↔ Granted (fixedPaths driver) (m.reals roots) path)

/-! ## When it holds -/

/-- The profile language reads the texts of the roots as paths that cover the roots, and nothing
    else. -/
structure ReadsRoots (m : Machine) (roots : List String) : Prop where
  noMore : ∀ root ∈ roots, ∀ place, m.sandboxExec.place (m.host.fs.resolveRealPath root) =
    some place → m.host.isDir place = true → Granted [["dev"]] (m.reals roots) place
  noLess : ∀ real ∈ m.reals roots, m.host.isDir real = true → ¬ ["dev"] <+: real →
    ∃ root ∈ roots, ∃ place, m.sandboxExec.place (m.host.fs.resolveRealPath root) = some place ∧
      place <+: real

/-- The condition under which a driver confines. -/
def Exact (m : Machine) (command : StructuredCommand) (roots : List String) : Driver → Prop
  | .landlock => Conveys m.host m.kernel (joinRoots (m.realRoots roots)) (m.reals roots)
  | .bubblewrap => ∀ root ∈ roots, (m.host.opens (m.host.fs.resolveRealPath root)).isSome = true
  | .sandboxExec => optionLike command.execPath = false ∧ ReadsRoots m roots
  | .environment =>
    (command.execPath ≠ "--check-landlock" ∧ command.execPath ≠ "--landlock-exec") ∧
      Conveys m.host m.kernel (joinRoots (roots.map m.environmentRoot)) (m.reals roots)

/-- The driver is available. -/
def Machine.Offers (m : Machine) : Driver → Prop
  | .landlock => m.platform = .linux ∧ m.helper.isSome = true ∧ m.probed = true ∧ 1 ≤ m.kernel.abi
  | .bubblewrap => m.platform = .linux ∧ m.bwrapPath.isSome = true
  | .sandboxExec => m.platform = .darwin ∧ m.hasSandboxExec = true
  | .environment =>
    m.platform = .linux ∧ m.helper.isSome = true ∧ m.probed = true ∧ 1 ≤ m.kernel.abi

/-- The file system is sound, and what the driver relies on is as documented. -/
def Machine.Documented (m : Machine) : Driver → Prop
  | .landlock => m.host.Sound ∧ m.kernel.Documented
  | .bubblewrap => m.host.Sound ∧ m.bwrap.Documented
  | .sandboxExec => m.host.Sound ∧ m.sandboxExec.Documented
  | .environment => m.host.Sound ∧ m.kernel.Documented

/-! ## What a launch confines -/

section Drivers

variable {m : Machine} {command : StructuredCommand} {roots : List String}

/-- What is executed is known once the launch is. -/
theorem confines_of_run {driver : Driver} {launched : Launch} {writes : Path → Bool}
    (hlaunch : m.launch driver command roots = .ok launched)
    (hrun : m.run driver launched = .execs (command.execPath :: command.args) writes) :
    Confines m driver command roots ↔ ∀ path, m.host.Subject path →
      (writes path = true ↔ Granted (fixedPaths driver) (m.reals roots) path) := by
  constructor
  · rintro ⟨launched', writes', hlaunch', hrun', hexact⟩
    obtain rfl := Except.ok.inj (hlaunch.symm.trans hlaunch')
    have hsame := hrun.symm.trans hrun'
    rw [Ran.execs.injEq] at hsame
    rw [hsame.2]
    exact hexact
  · exact fun hexact => ⟨launched, writes, hlaunch, hrun, hexact⟩

theorem not_confines_of_run {driver : Driver} {launched : Launch}
    (hlaunch : m.launch driver command roots = .ok launched)
    (hrun : ∀ writes, m.run driver launched ≠ .execs (command.execPath :: command.args) writes) :
    ¬ Confines m driver command roots := by
  rintro ⟨launched', writes, hlaunch', hrun', -⟩
  obtain rfl := Except.ok.inj (hlaunch.symm.trans hlaunch')
  exact hrun writes hrun'

/-! ## Landlock -/

theorem abiVersion_of_offers (h : m.Offers .landlock) : m.abiVersion = m.kernel.abi :=
  if_pos ⟨h.1, h.2.1, h.2.2.1⟩

theorem landlock_confines_iff (hdoc : m.Documented .landlock) (hoffers : m.Offers .landlock) :
    Confines m .landlock command roots ↔ Exact m command roots .landlock := by
  obtain ⟨rules, happlied⟩ := applyLandlock_some hdoc.1 hdoc.2 hoffers.2.2.2
    (joinRoots (m.realRoots roots))
  obtain ⟨helper, hhelper⟩ := Option.isSome_iff_exists.1 hoffers.2.1
  have hlaunch : m.launch .landlock command roots = .ok ⟨{ command with
      execPath := helper
      args := ["--landlock-exec", joinRoots (m.realRoots roots), "--", command.execPath] ++
        command.args }, none⟩ := by
    unfold Machine.launch Machine.landlockWrap
    simp only [hhelper]
    rw [if_neg (not_not.2 hoffers.1), if_neg (by rw [hoffers.2.2.1]; decide),
      abiVersion_of_offers hoffers, if_neg (not_lt.2 hoffers.2.2.2)]
    rfl
  have hrun : execUnder m.host m.kernel (joinRoots (m.realRoots roots))
      (command.execPath :: command.args) =
        .execs (command.execPath :: command.args) (writable m.host m.kernel rules) := by
    unfold execUnder
    rw [happlied]
  rw [confines_of_run hlaunch hrun]
  exact writable_iff_granted_iff hdoc.1 hdoc.2 happlied _

/-- What `--landlock-exec` executes comes behind its own arguments. -/
theorem landlockExec_shorter {h : Host} {k : Kernel} {args argv : List String}
    {writes : Path → Bool} (hrun : landlockExec h k args = .execs argv writes) :
    argv.length < args.length := by
  have hunder : ∀ {roots : String} {argv' : List String},
      execUnder h k roots argv' = .execs argv writes → argv' = argv := by
    intro roots argv' hexec
    unfold execUnder at hexec
    split at hexec
    · cases hexec
    · exact (Ran.execs.inj hexec).1
  unfold landlockExec at hrun
  split at hrun
  · rename_i roots target rest
    split at hrun
    · split at hrun
      · cases hrun
      · rw [← hunder hrun]
        simp
    · rw [← hunder hrun]
      simp
  · cases hrun

theorem environment_confines_iff (hdoc : m.Documented .environment)
    (hoffers : m.Offers .environment) :
    Confines m .environment command roots ↔ Exact m command roots .environment := by
  obtain ⟨rules, happlied⟩ := applyLandlock_some hdoc.1 hdoc.2 hoffers.2.2.2
    (joinRoots (roots.map m.environmentRoot))
  have hlaunch : m.launch .environment command roots =
      .ok ⟨command, some (joinRoots (roots.map m.environmentRoot))⟩ := by
    unfold Machine.launch Machine.environmentLaunch
    simp only
    rw [abiVersion_of_offers hoffers, if_pos ⟨hoffers.1, hoffers.2.2.2⟩]
  by_cases hcheck : command.execPath = "--check-landlock"
  · refine iff_of_false (not_confines_of_run hlaunch fun writes hrun => ?_)
      fun hexact => hexact.1.1 hcheck
    unfold Machine.run reaperMain at hrun
    simp only [if_pos hcheck] at hrun
    cases hrun
  by_cases hexec : command.execPath = "--landlock-exec"
  · refine iff_of_false (not_confines_of_run hlaunch fun writes hrun => ?_)
      fun hexact => hexact.1.2 hexec
    unfold Machine.run reaperMain at hrun
    simp only [if_neg hcheck, if_pos hexec] at hrun
    exact absurd (landlockExec_shorter hrun) (by simp)
  · have hrun : m.run .environment ⟨command, some (joinRoots (roots.map m.environmentRoot))⟩ =
        .execs (command.execPath :: command.args) (writable m.host m.kernel rules) := by
      unfold Machine.run reaperMain
      simp only [if_neg hcheck, if_neg hexec, runChild]
      unfold execUnder
      rw [happlied]
    rw [confines_of_run hlaunch hrun, Exact, and_iff_right ⟨hcheck, hexec⟩]
    exact writable_iff_granted_iff hdoc.1 hdoc.2 happlied _

/-! ## Bubblewrap -/

def rootMounts (roots : List String) : List Mount := roots.map fun root => .bind root root

theorem parse_binds {b : Bubblewrap} (hb : b.Documented) (roots argv : List String) :
    b.parse (roots.flatMap (fun root => ["--bind", root, root]) ++ "--" :: argv) =
      some (rootMounts roots, argv) := by
  induction roots with
  | nil => exact hb.command argv
  | cons root roots ih =>
    rw [List.flatMap_cons, List.append_assoc]
    show b.parse ("--bind" :: root :: root ::
      (roots.flatMap (fun root => ["--bind", root, root]) ++ "--" :: argv)) = _
    rw [hb.bind, ih]
    rfl

/-- The mounts of the driver. -/
def driverMounts (roots : List String) : List Mount :=
  .roBind "/" "/" :: .dev "/dev" :: .proc "/proc" :: rootMounts roots

theorem parse_driver {b : Bubblewrap} (hb : b.Documented) (roots argv : List String) :
    b.parse (["--ro-bind", "/", "/", "--dev", "/dev", "--proc", "/proc"] ++
      roots.flatMap (fun root => ["--bind", root, root]) ++ "--" :: argv) =
        some (driverMounts roots, argv) := by
  rw [List.append_assoc]
  show b.parse ("--ro-bind" :: "/" :: "/" :: "--dev" :: "/dev" :: "--proc" :: "/proc" ::
    (roots.flatMap (fun root => ["--bind", root, root]) ++ "--" :: argv)) = _
  rw [hb.roBind, hb.dev, hb.proc, parse_binds hb]
  rfl

/-- The last mount above a path is one of a root wherever there is one. -/
theorem mountWrites_driver {h : Host} (hs : h.Sound) (roots : List String) (path : Path) :
    mountWrites h (driverMounts (roots.map h.fs.resolveRealPath)) path = true ↔
      Granted [["dev"], ["proc"]] (roots.map fun root => h.fs.realPath (h.fs.resolve root))
        path := by
  have hdest : ∀ root, h.fs.resolve (h.fs.resolveRealPath root) =
      h.fs.realPath (h.fs.resolve root) :=
    fun root => h.fs.resolve_renderPath (hs.proper root)
  let above (mount : Mount) : Bool := (h.fs.resolve mount.dest).isPrefixOf path
  have hsplit : (driverMounts (roots.map h.fs.resolveRealPath)).filter above =
      [.roBind "/" "/", .dev "/dev", .proc "/proc"].filter above ++
        (rootMounts (roots.map h.fs.resolveRealPath)).filter above := by
    rw [← List.filter_append]
    rfl
  unfold mountWrites
  rw [show (fun mount : Mount => (h.fs.resolve mount.dest).isPrefixOf path) = above from rfl,
    hsplit, List.getLast?_append]
  cases hlast : ((rootMounts (roots.map h.fs.resolveRealPath)).filter above).getLast? with
  | some =>
    obtain ⟨hmem, habove⟩ := List.mem_filter.1 (List.mem_of_getLast? hlast)
    obtain ⟨text, htext, rfl⟩ := List.mem_map.1 hmem
    obtain ⟨root, hroot, rfl⟩ := List.mem_map.1 htext
    refine iff_of_true rfl (.inl ⟨_, List.mem_map_of_mem hroot, ?_⟩)
    rw [← hdest root]
    exact List.isPrefixOf_iff_prefix.1 habove
  | none =>
    have hroots : ¬ ∃ real ∈ roots.map fun root => h.fs.realPath (h.fs.resolve root),
        real <+: path := by
      rintro ⟨real, hreal, hbelow⟩
      obtain ⟨root, hroot, rfl⟩ := List.mem_map.1 hreal
      have hnone := List.filter_eq_nil_iff.1 (List.getLast?_eq_none_iff.1 hlast)
        (.bind (h.fs.resolveRealPath root) (h.fs.resolveRealPath root))
        (List.mem_map_of_mem (List.mem_map_of_mem hroot))
      refine hnone (List.isPrefixOf_iff_prefix.2 ?_)
      show h.fs.resolve (h.fs.resolveRealPath root) <+: path
      rw [hdest root]
      exact hbelow
    have hslash : above (.roBind "/" "/") = true := rfl
    have hdev : above (.dev "/dev") = true ↔ ["dev"] <+: path := List.isPrefixOf_iff_prefix
    have hproc : above (.proc "/proc") = true ↔ ["proc"] <+: path := List.isPrefixOf_iff_prefix
    have hfixed : (∃ place ∈ [["dev"], ["proc"]], place <+: path) ↔
        above (.dev "/dev") = true ∨ above (.proc "/proc") = true := by
      rw [hdev, hproc]
      simp
    rw [Granted, or_iff_right hroots, hfixed]
    simp only [List.filter_cons, hslash, if_true, List.filter_nil, Option.none_or]
    cases above (.dev "/dev") <;> cases above (.proc "/proc") <;> simp [Mount.writable]

theorem bubblewrap_confines_iff (hdoc : m.Documented .bubblewrap)
    (hoffers : m.Offers .bubblewrap) :
    Confines m .bubblewrap command roots ↔ Exact m command roots .bubblewrap := by
  obtain ⟨bwrapPath, hpath⟩ := Option.isSome_iff_exists.1 hoffers.2
  have hlaunch : m.launch .bubblewrap command roots = .ok ⟨{ command with
      execPath := bwrapPath
      args := ["--ro-bind", "/", "/", "--dev", "/dev", "--proc", "/proc"] ++
        (m.realRoots roots).flatMap (fun root => ["--bind", root, root]) ++
          ("--" :: command.execPath :: command.args) }, none⟩ := by
    unfold Machine.launch Machine.bubblewrapWrap
    simp only [hpath]
    rw [if_neg (not_not.2 hoffers.1)]
    rfl
  have hparse := parse_driver hdoc.2 (m.realRoots roots) (command.execPath :: command.args)
  -- The file system itself is there, so what can be missing is a root.
  have hfound : (driverMounts (m.realRoots roots)).all (fun mount =>
      mount.source?.all fun source => (m.host.opens source).isSome) = true ↔
        Exact m command roots .bubblewrap := by
    have hslash : (m.host.opens "/").isSome = true := by
      rw [show m.host.opens "/" = some [] from hdoc.1.opened [] hdoc.1.root]
      rfl
    unfold Exact driverMounts rootMounts Machine.realRoots
    simp [Mount.source?, hslash]
  by_cases hexact : Exact m command roots .bubblewrap
  · have hrun : m.run .bubblewrap ⟨{ command with
        execPath := bwrapPath
        args := ["--ro-bind", "/", "/", "--dev", "/dev", "--proc", "/proc"] ++
          (m.realRoots roots).flatMap (fun root => ["--bind", root, root]) ++
            ("--" :: command.execPath :: command.args) }, none⟩ =
        .execs (command.execPath :: command.args)
          (mountWrites m.host (driverMounts (m.realRoots roots))) := by
      unfold Machine.run bwrapMain
      simp only [hparse]
      rw [if_pos (hfound.2 hexact)]
    rw [confines_of_run hlaunch hrun]
    exact iff_of_true (fun path _ => mountWrites_driver hdoc.1 roots path) hexact
  · refine iff_of_false (not_confines_of_run hlaunch fun writes hrun => ?_) hexact
    unfold Machine.run bwrapMain at hrun
    simp only [hparse] at hrun
    rw [if_neg fun hall => hexact (hfound.1 hall)] at hrun
    cases hrun

/-! ## `sandbox-exec` -/

/-- The last form that says something is one of a root wherever one covers the path. -/
theorem profileWrites_driver (places : List (Option Path)) (path : Path) :
    profileWrites (.version :: .allowDefault :: .denyWrites :: .allowWrites (some ["dev"]) ::
        places.map .allowWrites) path = true ↔
      (∃ place, some place ∈ places ∧ place <+: path) ∨ ["dev"] <+: path := by
  let fixed : List Form := [.version, .allowDefault, .denyWrites, .allowWrites (some ["dev"])]
  unfold profileWrites
  rw [show Form.version :: .allowDefault :: .denyWrites :: .allowWrites (some ["dev"]) ::
      places.map .allowWrites = fixed ++ places.map .allowWrites from rfl,
    List.filterMap_append, List.getLast?_append]
  cases hlast : ((places.map Form.allowWrites).filterMap (Form.decides? path)).getLast? with
  | some =>
    obtain ⟨form, hform, hdecides⟩ := List.mem_filterMap.1 (List.mem_of_getLast? hlast)
    obtain ⟨place?, hplace, rfl⟩ := List.mem_map.1 hform
    cases place? with
    | none => cases hdecides
    | some place =>
      simp only [Form.decides?, Option.ite_none_right_eq_some, Option.some.injEq] at hdecides
      obtain ⟨hcovers, rfl⟩ := hdecides
      exact iff_of_true rfl (.inl ⟨place, hplace, List.isPrefixOf_iff_prefix.1 hcovers⟩)
  | none =>
    have hnone : ¬ ∃ place, some place ∈ places ∧ place <+: path := by
      rintro ⟨place, hplace, hcovers⟩
      have hempty := List.getLast?_eq_none_iff.1 hlast
      have hmem : true ∈ (places.map Form.allowWrites).filterMap (Form.decides? path) := by
        refine List.mem_filterMap.2 ⟨_, List.mem_map_of_mem hplace, ?_⟩
        exact if_pos (List.isPrefixOf_iff_prefix.2 hcovers)
      rw [hempty] at hmem
      cases hmem
    rw [or_iff_right hnone, ← List.isPrefixOf_iff_prefix, Option.none_or]
    cases hdev : List.isPrefixOf ["dev"] path <;>
      simp [fixed, Form.decides?, hdev, List.findSome?]

/-- The profile grants exactly the roots if and only if its texts are read as them. -/
theorem reads_iff (hs : m.host.Sound) :
    (∀ path, m.host.Subject path →
        ((∃ place, some place ∈ (m.realRoots roots).map m.sandboxExec.place ∧ place <+: path) ∨
            ["dev"] <+: path ↔ Granted [["dev"]] (m.reals roots) path)) ↔
      ReadsRoots m roots := by
  have hplaces : ∀ {place}, some place ∈ (m.realRoots roots).map m.sandboxExec.place ↔
      ∃ root ∈ roots, m.sandboxExec.place (m.host.fs.resolveRealPath root) = some place := by
    intro place
    simp [Machine.realRoots]
  have hgranted : ∀ {path}, Granted [["dev"]] (m.reals roots) path ↔
      (∃ real ∈ m.reals roots, real <+: path) ∨ ["dev"] <+: path := by
    intro path
    simp [Granted]
  have hdevice : ∀ device ∈ landlockDevices, ["dev"] <+: device := by decide
  constructor
  · intro hexact
    refine ⟨fun root hroot place hplace hdir => ?_, fun real hreal hdir hdev => ?_⟩
    · exact (hexact place (.inl hdir)).1
        (.inl ⟨place, hplaces.2 ⟨root, hroot, hplace⟩, List.prefix_refl place⟩)
    · rcases (hexact real (.inl hdir)).2 (.inl ⟨real, hreal, List.prefix_refl real⟩) with
        ⟨place, hplace, hcovers⟩ | hcovers
      · obtain ⟨root, hroot, hread⟩ := hplaces.1 hplace
        exact ⟨root, hroot, place, hread, hcovers⟩
      · exact absurd hcovers hdev
  · rintro hreads path (hdir | ⟨hmem, -⟩)
    · rw [hgranted]
      constructor
      · rintro (⟨place, hplace, hcovers⟩ | hdev)
        · obtain ⟨root, hroot, hread⟩ := hplaces.1 hplace
          have hplaceDir := hs.above hcovers hdir
          rcases hgranted.1 (hreads.noMore root hroot place hread hplaceDir) with
            ⟨real, hreal, habove⟩ | hdev
          · exact .inl ⟨real, hreal, habove.trans hcovers⟩
          · exact .inr (hdev.trans hcovers)
        · exact .inr hdev
      · rintro (⟨real, hreal, hbelow⟩ | hdev)
        · by_cases hdev : ["dev"] <+: real
          · exact .inr (hdev.trans hbelow)
          · obtain ⟨root, hroot, place, hread, habove⟩ :=
              hreads.noLess real hreal (hs.above hbelow hdir) hdev
            exact .inl ⟨place, hplaces.2 ⟨root, hroot, hread⟩, habove.trans hbelow⟩
        · exact .inr hdev
    · have hdev := hdevice path hmem
      exact iff_of_true (.inr hdev) (hgranted.2 (.inr hdev))

theorem sandboxExec_confines_iff (hdoc : m.Documented .sandboxExec)
    (hoffers : m.Offers .sandboxExec) :
    Confines m .sandboxExec command roots ↔ Exact m command roots .sandboxExec := by
  have hlaunch : m.launch .sandboxExec command roots = .ok ⟨{ command with
      execPath := "/usr/bin/sandbox-exec"
      args := ["-p", profileText (m.realRoots roots), command.execPath] ++ command.args },
        none⟩ := by
    unfold Machine.launch Machine.sandboxExecWrap
    simp only
    have havailable : m.platform = .darwin ∧ m.hasSandboxExec = true := hoffers
    rw [if_pos havailable]
    rfl
  have hprofile := hdoc.2.profile (m.realRoots roots)
  let places := (m.realRoots roots).map m.sandboxExec.place
  let forms : List Form := .version :: .allowDefault :: .denyWrites ::
    .allowWrites (some ["dev"]) :: places.map .allowWrites
  have hforms : m.sandboxExec.profile (profileText (m.realRoots roots)) = some forms := by
    rw [hprofile]
    simp [forms, places, Function.comp_def]
  by_cases hoption : optionLike command.execPath = true
  · refine iff_of_false (not_confines_of_run hlaunch fun writes hrun => ?_) fun hexact => ?_
    · have hrun : sandboxMain m.sandboxExec ("-p" :: profileText (m.realRoots roots) ::
          command.execPath :: command.args) = .execs (command.execPath :: command.args) writes :=
        hrun
      unfold sandboxMain at hrun
      split at hrun
      · cases hrun
      · rename_i profile argv hstart
        split at hrun
        · cases hrun
        · exact hdoc.2.option _ _ _ _ hoption hstart (Ran.execs.inj hrun).1
    · rw [hexact.1] at hoption
      cases hoption
  · rw [Bool.not_eq_true] at hoption
    have hrun : sandboxMain m.sandboxExec ("-p" :: profileText (m.realRoots roots) ::
        command.execPath :: command.args) =
          .execs (command.execPath :: command.args) (profileWrites forms) := by
      unfold sandboxMain
      rw [hdoc.2.command _ _ _ hoption]
      simp only [hforms]
    rw [confines_of_run hlaunch hrun, Exact, and_iff_right hoption, ← reads_iff hdoc.1]
    refine forall_congr' fun path => imp_congr_right fun _ => ?_
    rw [show profileWrites forms path = true ↔ _ from profileWrites_driver places path]
    rfl

end Drivers

/-! ### A root whose name has a colon -/

def colonDirs : List Path := [[], ["w"], ["dev"], ["a"], ["a:b"]]

/-- A small file system: the working directory `/w`, and beside it `/a` and `/a:b`. -/
def colonHost : Host where
  fs :=
    { cwd := ["w"]
      realpathSync := some
      existsSync := fun path => colonDirs.contains path }
  isDir := fun path => colonDirs.contains path
  opens := fun text =>
    let path := resolveSegments (if hasPrefix "/" text then [] else ["w"])
      (splitAtChar '/' text.toList)
    if (colonDirs ++ landlockDevices).contains path then some path else none

theorem sound_colonHost : colonHost.Sound where
  found := by
    intro path real outer hopens hprefix hne
    have hreal : real ∈ colonDirs ++ landlockDevices := by
      simp only [colonHost, Option.ite_none_right_eq_some, Option.some.injEq] at hopens
      exact hopens.2 ▸ List.contains_iff_mem.1 hopens.1
    have hall : ∀ real ∈ colonDirs ++ landlockDevices, ∀ outer ∈ real.inits,
        outer ≠ real → colonHost.isDir outer = true := by decide
    exact hall real hreal outer ((List.mem_inits _ _).2 hprefix) hne
  root := by decide
  opened := by
    have hall : ∀ dir ∈ colonDirs, colonHost.opens (renderPath dir) = some dir := by decide
    exact fun dir hdir => hall dir (List.contains_iff_mem.1 hdir)
  proper := fun path => colonHost.fs.resolve_proper
    (by simp [colonHost, ProperName]) path
  devices := by decide

/-- `bwrap` as far as the driver uses it. -/
def plainBwrap : List String → Option (List Mount × List String)
  | "--" :: argv => some ([], argv)
  | "--ro-bind" :: source :: dest :: args =>
    Bubblewrap.pushed (.roBind source dest) (plainBwrap args)
  | "--bind" :: source :: dest :: args => Bubblewrap.pushed (.bind source dest) (plainBwrap args)
  | "--dev" :: dest :: args => Bubblewrap.pushed (.dev dest) (plainBwrap args)
  | "--proc" :: dest :: args => Bubblewrap.pushed (.proc dest) (plainBwrap args)
  | _ => none

/-- A kernel that takes for a file only the rights that make sense for one. -/
def strictKernel : Kernel where
  abi := 3
  takes := fun dir access => access &&& ~~~ Access.handled 3 = 0 ∧
    (dir = true ∨ access &&& ~~~ (.execute ||| .readFile ||| .fileWrite 3) = 0)

def colonMachine : Machine where
  platform := .linux
  host := colonHost
  kernel := strictKernel
  helper := some "/usr/lib/xioflow-reaper"
  probed := true
  bwrapPath := some "/usr/bin/bwrap"
  bwrap := ⟨plainBwrap⟩
  hasSandboxExec := false
  sandboxExec := ⟨fun _ => none, fun _ => none, fun _ => none⟩

def listing : StructuredCommand where
  execPath := "/bin/ls"
  args := ["-l"]
  cwd := "/w"

end Confinement
end XioFlow
