/-
  XioFlow.Supervisor.TreeCommands

  The fingerprint of a command on a workspace tree, with the paths of the
  workspace taken out.

  The root is taken out wherever its text stands.  Two commands with one
  fingerprint are one command on two roots where the root stands only as a whole
  path, its real path does not stand beside it, and no text spells the
  placeholder.
-/

import XioFlow.Supervisor.RequestIdentity
import XioFlow.Lib.Cut

namespace XioFlow

open Lib Lib.JsonText
open Lib.Cut (cut cutWhere fill Unmarked fill_cut cut_eq_map replaceAll_of_not_infix
  eq_fill_of_replaceAll_eq)

namespace Supervisor

/-! ## The roots of a workspace -/

def WORKSPACE_PLACEHOLDER : String := "<workspace>"

def normalizeWorkspaceString (value : String) (roots : List String) : String :=
  roots.foldl (fun out root =>
    if root = "" then out
    else String.ofList
      (replaceAll root.toList WORKSPACE_PLACEHOLDER.toList out.toList)) value

/-- The workspace root as it is resolved. -/
def resolvedRoot (fs : FileSystem) (workspaceRoot : String) : String :=
  renderPath (fs.resolve workspaceRoot)

/-- The real path of the workspace root, when there is one and it is another text. -/
def otherRoot? (fs : FileSystem) (workspaceRoot : String) : Option String :=
  ((fs.realpathSync (fs.resolve workspaceRoot)).map renderPath).filter
    fun real => real ≠ resolvedRoot fs workspaceRoot

/-- The texts that are taken out, the longest first; the sort is stable. -/
def workspaceRoots (fs : FileSystem) (workspaceRoot : String) : List String :=
  if workspaceRoot = "" then []
  else (resolvedRoot fs workspaceRoot :: (otherRoot? fs workspaceRoot).toList).insertionSort
    fun a b => (units b).length ≤ (units a).length

/-! ## The fingerprint -/

/-- `executeWorkspaceCommand`: the request with the root and the hash of its tree. -/
structure WorkspaceCommand extends ProcessRequest where
  workspaceRoot : String
  treeFingerprint : String

section Fingerprint

variable (sha256 : List UInt8 → String) (h : Host)

/-- What becomes of the texts of a command. -/
def WorkspaceCommand.erased (w : WorkspaceCommand) (value : String) : String :=
  normalizeWorkspaceString value (workspaceRoots h.fs w.workspaceRoot)

/-- `canonical` in `computeTreeCommandFingerprint` -/
def treeCanonical (w : WorkspaceCommand) : Value :=
  .obj ([(units "treeFingerprint", textValue w.treeFingerprint)] ++
    commandEntries h (w.erased h) w.command ++ bindingEntries sha256 w.toProcessRequest)

def computeTreeCommandFingerprint (w : WorkspaceCommand) : String :=
  digest sha256 (treeCanonical sha256 h w)

end Fingerprint

section Equal

variable {sha256 : List UInt8 → String} {h h' : Host} {w w' : WorkspaceCommand}

theorem distinct_treeCanonical (h : Host) (w : WorkspaceCommand) :
    (treeCanonical sha256 h w).Distinct := by
  refine distinct_obj ["treeFingerprint", "args", "cwd", "envWhiteList", "secretEnv", "execPath",
    "inheritEnv", "resourceBudget", "stdinHash", "timeoutMs", "capabilityId",
    "capabilityWorkspace", "capabilitySecretRefs", "capabilityPolicyVersion"] rfl (by decide) ?_
  intro e he
  rcases List.mem_append.1 he with he | hbinding
  · rcases List.mem_append.1 he with htree | hcommand
    · rw [List.mem_singleton.1 htree]
      exact distinct_textValue _
    · exact distinct_commandEntries h _ w.command e hcommand
  · exact distinct_bindingEntries w.toProcessRequest e hbinding

theorem treeFingerprint_eq_iff (hsha : Function.Injective sha256) :
    computeTreeCommandFingerprint sha256 h w = computeTreeCommandFingerprint sha256 h' w' ↔
      w.treeFingerprint = w'.treeFingerprint ∧
      SameCommand h h' (w.erased h) (w'.erased h') w.command w'.command ∧
      SameBinding w.toProcessRequest w'.toProcessRequest := by
  unfold computeTreeCommandFingerprint
  rw [digest_inj hsha (distinct_treeCanonical h w) (distinct_treeCanonical h' w')]
  unfold treeCanonical
  rw [Value.obj.injEq, ← commandEntries_inj, ← bindingEntries_inj hsha]
  constructor
  · intro heq
    obtain ⟨hfront, hbinding⟩ := List.append_inj heq rfl
    obtain ⟨htree, hcommand⟩ := List.append_inj hfront rfl
    have hone := (List.cons.inj htree).1
    exact ⟨textValue_inj.1 (congrArg Prod.snd hone), hcommand, hbinding⟩
  · rintro ⟨htree, hcommand, hbinding⟩
    rw [htree, hcommand, hbinding]

end Equal

/-! ## Texts that name the workspace only as a whole path -/

/-- A separator or the end. -/
def endsName (rest : List Char) : Bool := rest.isEmpty || rest.head? = some '/'

/-- `r1` as a whole path, replaced by `r2` -/
def renameRoot (r1 r2 value : String) : String :=
  String.ofList (fill r2.toList (cutWhere r1.toList endsName value.toList))

/-- The texts stand for themselves beside the root: they do not spell the placeholder, and the real
    path of the root, where it is another text, does not stand in them. -/
structure Readable (fs : FileSystem) (workspaceRoot value : String) : Prop where
  unmarked : Unmarked WORKSPACE_PLACEHOLDER.toList
    (cut (resolvedRoot fs workspaceRoot).toList value.toList)
  onlyResolved : ∀ real, otherRoot? fs workspaceRoot = some real →
    ¬ real.toList <:+: value.toList ∧
    ¬ real.toList <:+: replaceAll (resolvedRoot fs workspaceRoot).toList
      WORKSPACE_PLACEHOLDER.toList value.toList

/-- The root stands in the text as a whole path only. -/
def RootIsWhole (fs : FileSystem) (workspaceRoot value : String) : Prop :=
  cutWhere (resolvedRoot fs workspaceRoot).toList endsName value.toList =
    cut (resolvedRoot fs workspaceRoot).toList value.toList

/-- Every text of the command that the root is taken out of. -/
def StructuredCommand.texts (c : StructuredCommand) : List String :=
  c.args ++ [c.cwd, c.execPath] ++ (c.envWhiteList.map fun env => env.entries.map Prod.snd).getD []

theorem erased_eq {h : Host} {w : WorkspaceCommand} (hroot : w.workspaceRoot ≠ "")
    {value : String} (hread : Readable h.fs w.workspaceRoot value) :
    w.erased h value = String.ofList (replaceAll (resolvedRoot h.fs w.workspaceRoot).toList
      WORKSPACE_PLACEHOLDER.toList value.toList) := by
  unfold WorkspaceCommand.erased normalizeWorkspaceString workspaceRoots
  rw [if_neg hroot]
  have hresolved : resolvedRoot h.fs w.workspaceRoot ≠ "" := by
    intro heq
    exact renderPath_ne_empty _ (congrArg String.toList heq)
  cases hother : otherRoot? h.fs w.workspaceRoot with
  | none =>
    rw [Option.toList_none, List.insertionSort_cons, List.insertionSort_nil,
      List.orderedInsert_nil, List.foldl_cons, List.foldl_nil, if_neg hresolved]
  | some real =>
    obtain ⟨habsent, herased⟩ := hread.onlyResolved real hother
    have hreal : real ≠ "" := by
      rintro rfl
      exact habsent (List.nil_infix)
    rw [Option.toList_some, List.insertionSort_cons, List.insertionSort_cons,
      List.insertionSort_nil, List.orderedInsert_nil, List.orderedInsert_cons]
    split
    · rw [List.foldl_cons, List.foldl_cons, List.foldl_nil, if_neg hresolved, if_neg hreal,
        String.toList_ofList, replaceAll_of_not_infix herased]
    · rw [List.orderedInsert_nil, List.foldl_cons, List.foldl_cons, List.foldl_nil, if_neg hreal,
        if_neg hresolved, replaceAll_of_not_infix habsent, String.ofList_toList]

/-! ## One command on two roots -/

/-- The second command is the first one with its texts renamed. -/
structure RenamedCommand (text : String → String) (c c' : StructuredCommand) : Prop where
  args : c'.args = c.args.map text
  cwd : c'.cwd = text c.cwd
  execPath : c'.execPath = text c.execPath
  envWhiteList : c'.envWhiteList.map sortedByKey =
    c.envWhiteList.map fun env => (sortedByKey env).map fun e => (e.1, text e.2)
  inheritEnv : c'.inheritEnv = c.inheritEnv
  secretEnv : OptionRel SameProperties c.secretEnv c'.secretEnv
  stdin : c'.stdin = c.stdin

/-- The fields of a command that its fingerprint leaves out. -/
structure SameLeftOut (r r' : ProcessRequest) : Prop extends SameUncovered r r' where
  requiredResources : r.requiredResources = r'.requiredResources

/-- The root of the first command, as a whole path, replaced by the root of the second. -/
def rename (h h' : Host) (w w' : WorkspaceCommand) (value : String) : String :=
  renameRoot (resolvedRoot h.fs w.workspaceRoot) (resolvedRoot h'.fs w'.workspaceRoot) value

/-- The second command is the first one on another root; all other fields are equal. -/
structure Renamed (h h' : Host) (w w' : WorkspaceCommand) : Prop extends
    RenamedCommand (rename h h' w w') w.command w'.command,
    SameLeftOut w.toProcessRequest w'.toProcessRequest where
  resourceBudget : w.resourceBudget = w'.resourceBudget
  timeoutMs : w.timeoutMs = w'.timeoutMs
  capabilityId : w.capabilityId = w'.capabilityId
  capabilityWorkspace : w.capabilityWorkspace = w'.capabilityWorkspace
  capabilityPolicyVersion : w.capabilityPolicyVersion = w'.capabilityPolicyVersion
  capabilitySecretRefs :
    (w.capabilitySecretRefs.getD []).Perm (w'.capabilitySecretRefs.getD [])

/-- The root is given, and every text of the command stands for itself beside it. -/
structure Legible (h : Host) (w : WorkspaceCommand) : Prop where
  given : w.workspaceRoot ≠ ""
  readable : ∀ t ∈ w.command.texts, Readable h.fs w.workspaceRoot t

section Reuse

variable {sha256 : List UInt8 → String} {h h' : Host} {w w' : WorkspaceCommand}

theorem resolvedRoot_ne_nil (fs : FileSystem) (workspaceRoot : String) :
    (resolvedRoot fs workspaceRoot).toList ≠ [] := renderPath_ne_empty _

/-- Texts that are equal without their roots are one text on two roots. -/
theorem renamed_of_erased_eq (hw : Legible h w) (hw' : Legible h' w') {s s' : String}
    (hs : s ∈ w.command.texts) (hs' : s' ∈ w'.command.texts)
    (hwhole : RootIsWhole h.fs w.workspaceRoot s) (heq : w.erased h s = w'.erased h' s') :
    s' = rename h h' w w' s := by
  have hread := hw.readable s hs
  have hread' := hw'.readable s' hs'
  rw [erased_eq hw.given hread, erased_eq hw'.given hread'] at heq
  have hplaceholder : WORKSPACE_PLACEHOLDER.toList = '<' :: "workspace>".toList := rfl
  have hfirst : '<' ∉ "workspace>".toList := by simp
  have hunmarked := hread.unmarked
  have hunmarked' := hread'.unmarked
  have herased := String.ofList_injective heq
  rw [hplaceholder] at hunmarked hunmarked' herased
  have hfill := eq_fill_of_replaceAll_eq hfirst (resolvedRoot_ne_nil h'.fs w'.workspaceRoot)
    hunmarked hunmarked' herased
  unfold rename renameRoot
  rw [hwhole, ← hfill, String.ofList_toList]

/-- What holds item by item holds of lists that are mapped alike. -/
theorem eq_map_of_map_eq {α β γ : Type} {f : α → γ} {g : β → γ} {k : α → β} {xs : List α}
    {ys : List β} (heq : xs.map f = ys.map g) (hitems : ∀ x ∈ xs, ∀ y ∈ ys, f x = g y → y = k x) :
    ys = xs.map k := by
  induction xs generalizing ys with
  | nil => exact List.map_eq_nil_iff.1 heq.symm
  | cons x xs ih =>
    cases ys with
    | nil => cases heq
    | cons y ys =>
      obtain ⟨hhead, htail⟩ := List.cons.inj heq
      have hy : y = k x := hitems x List.mem_cons_self y List.mem_cons_self hhead
      have hys : ys = xs.map k := ih htail fun a ha b hb =>
        hitems a (List.mem_cons_of_mem _ ha) b (List.mem_cons_of_mem _ hb)
      rw [hy, hys, List.map_cons]

theorem mem_texts_env {c : StructuredCommand} {env : StringRecord} (henv : c.envWhiteList = some env)
    {e : String × String} (he : e ∈ sortedByKey env) : e.2 ∈ c.texts := by
  unfold StructuredCommand.texts
  rw [henv]
  exact List.mem_append_right _ (List.mem_map_of_mem ((sortedByKey_perm env).mem_iff.1 he))

/-- The environments are renamed value by value. -/
theorem renamed_env (hw : Legible h w) (hw' : Legible h' w')
    (hwhole : ∀ t ∈ w.command.texts, RootIsWhole h.fs w.workspaceRoot t)
    (heq : (w.command.envWhiteList.map fun env =>
        (sortedByKey env).map fun e => (e.1, w.erased h e.2)) =
      w'.command.envWhiteList.map fun env =>
        (sortedByKey env).map fun e => (e.1, w'.erased h' e.2)) :
    w'.command.envWhiteList.map sortedByKey = w.command.envWhiteList.map fun env =>
      (sortedByKey env).map fun e => (e.1, rename h h' w w' e.2) := by
  cases henv : w.command.envWhiteList with
  | none =>
    cases henv' : w'.command.envWhiteList with
    | none => rfl
    | some =>
      rw [henv, henv'] at heq
      cases heq
  | some =>
    cases henv' : w'.command.envWhiteList with
    | none =>
      rw [henv, henv'] at heq
      cases heq
    | some =>
      rw [henv, henv'] at heq
      refine congrArg some (eq_map_of_map_eq (Option.some.inj heq) ?_)
      intro e he e' he' hentry
      obtain ⟨hkey, hvalue⟩ := Prod.mk.inj hentry
      have hmem := mem_texts_env henv he
      have hrenamed := renamed_of_erased_eq hw hw' hmem (mem_texts_env henv' he')
        (hwhole _ hmem) hvalue
      exact Prod.ext hkey.symm hrenamed

/-- The commands agree in everything that a fingerprint covers, their roots taken out. -/
structure SameErased (h h' : Host) (w w' : WorkspaceCommand) : Prop extends
    SameCommand h h' (w.erased h) (w'.erased h') w.command w'.command,
    SameBinding w.toProcessRequest w'.toProcessRequest where
  treeFingerprint : w.treeFingerprint = w'.treeFingerprint

theorem sameErased_iff (hsha : Function.Injective sha256) :
    computeTreeCommandFingerprint sha256 h w = computeTreeCommandFingerprint sha256 h' w' ↔
      SameErased h h' w w' := by
  rw [treeFingerprint_eq_iff hsha]
  constructor
  · rintro ⟨htree, hcommand, hbinding⟩
    exact { hcommand, hbinding with treeFingerprint := htree }
  · intro hsame
    exact ⟨hsame.treeFingerprint, hsame.toSameCommand, hsame.toSameBinding⟩

/-- Legible commands that agree without their roots are one command on two roots. -/
theorem SameErased.renamed (hsame : SameErased h h' w w') (hw : Legible h w)
    (hw' : Legible h' w') (hwhole : ∀ t ∈ w.command.texts, RootIsWhole h.fs w.workspaceRoot t)
    (hleft : SameLeftOut w.toProcessRequest w'.toProcessRequest) : Renamed h h' w w' := by
  have hargs : w'.command.args = w.command.args.map (rename h h' w w') := by
    refine eq_map_of_map_eq hsame.args fun s hs s' hs' herased => ?_
    have hmem : s ∈ w.command.texts := List.mem_append_left _ (List.mem_append_left _ hs)
    have hmem' : s' ∈ w'.command.texts := List.mem_append_left _ (List.mem_append_left _ hs')
    exact renamed_of_erased_eq hw hw' hmem hmem' (hwhole s hmem) herased
  have hcwd : w.command.cwd ∈ w.command.texts := by
    unfold StructuredCommand.texts
    simp
  have hcwd' : w'.command.cwd ∈ w'.command.texts := by
    unfold StructuredCommand.texts
    simp
  have hexec : w.command.execPath ∈ w.command.texts := by
    unfold StructuredCommand.texts
    simp
  have hexec' : w'.command.execPath ∈ w'.command.texts := by
    unfold StructuredCommand.texts
    simp
  exact {
    hleft with
    args := hargs
    cwd := renamed_of_erased_eq hw hw' hcwd hcwd' (hwhole _ hcwd) hsame.cwd
    execPath := renamed_of_erased_eq hw hw' hexec hexec' (hwhole _ hexec) hsame.execPath
    envWhiteList := renamed_env hw hw' hwhole hsame.envWhiteList
    inheritEnv := hsame.inheritEnv.symm
    secretEnv := sameProperties_of_sortedByLocale hsame.secretEnv
    stdin := hsame.stdin.symm
    resourceBudget := hsame.resourceBudget
    timeoutMs := hsame.timeoutMs
    capabilityId := hsame.capabilityId
    capabilityWorkspace := hsame.capabilityWorkspace
    capabilityPolicyVersion := hsame.capabilityPolicyVersion
    capabilitySecretRefs := sortTexts_eq_iff.1 hsame.capabilitySecretRefs }

/-- A result is reused only for the same command, among commands that are legible, exactly where
    commands that the fingerprint does not tell apart agree in what it leaves out. -/
theorem reuse_sound_iff (hsha : Function.Injective sha256) (hw : Legible h w)
    (hw' : Legible h' w') (hwhole : ∀ t ∈ w.command.texts, RootIsWhole h.fs w.workspaceRoot t) :
    (computeTreeCommandFingerprint sha256 h w = computeTreeCommandFingerprint sha256 h' w' →
        Renamed h h' w w') ↔
      (SameErased h h' w w' → SameLeftOut w.toProcessRequest w'.toProcessRequest) := by
  rw [sameErased_iff hsha]
  constructor
  · intro hrenamed hsame
    exact (hrenamed hsame).toSameLeftOut
  · intro hleft hsame
    exact hsame.renamed hw hw' hwhole (hleft hsame)

end Reuse

/-! ## A sibling directory and a written placeholder -/

/-- A command with one argument, on a root. -/
def runsOn (workspaceRoot arg : String) : WorkspaceCommand where
  command := { shell with args := [arg] }
  workspaceRoot := workspaceRoot
  treeFingerprint := "tree"

theorem legible_runsOn {workspaceRoot arg : String} (hgiven : workspaceRoot ≠ "")
    (hother : otherRoot? plainHost.fs workspaceRoot = none)
    (htexts : ∀ t ∈ [arg, "/", "/bin/sh"], Unmarked WORKSPACE_PLACEHOLDER.toList
      (cut (resolvedRoot plainHost.fs workspaceRoot).toList t.toList)) :
    Legible plainHost (runsOn workspaceRoot arg) := by
  refine ⟨hgiven, fun t ht => ⟨htexts t ht, fun real hreal => ?_⟩⟩
  have hsome : otherRoot? plainHost.fs workspaceRoot = some real := hreal
  rw [hother] at hsome
  cases hsome

/-- The same argument on two roots. -/
theorem forks_share_result :
    computeTreeCommandFingerprint plainDigest plainHost (runsOn "/w" "/w/x") =
      computeTreeCommandFingerprint plainDigest plainHost (runsOn "/v" "/v/x") ∧
    Renamed plainHost plainHost (runsOn "/w" "/w/x") (runsOn "/v" "/v/x") := by
  have hsame : computeTreeCommandFingerprint plainDigest plainHost (runsOn "/w" "/w/x") =
      computeTreeCommandFingerprint plainDigest plainHost (runsOn "/v" "/v/x") := by decide +kernel
  refine ⟨hsame, ?_⟩
  refine (reuse_sound_iff plainDigest_injective ?_ ?_ ?_).2 (fun _ => ⟨⟨rfl, rfl, rfl, rfl⟩, rfl⟩)
    hsame
  · refine legible_runsOn (by decide) (by decide +kernel) ?_
    unfold Unmarked
    decide +kernel
  · refine legible_runsOn (by decide) (by decide +kernel) ?_
    unfold Unmarked
    decide +kernel
  · show ∀ t ∈ ["/w/x", "/", "/bin/sh"], RootIsWhole (plainFiles []) "/w" t
    unfold RootIsWhole
    decide +kernel

/-- Two commands have one fingerprint that name siblings of their roots, of which one spells the
    placeholder, or which differ in the mode of standard input. -/
theorem siblings_share_result :
    (computeTreeCommandFingerprint plainDigest plainHost (runsOn "/w" "/w2/x") =
        computeTreeCommandFingerprint plainDigest plainHost (runsOn "/v" "/v2/x") ∧
      ¬ Renamed plainHost plainHost (runsOn "/w" "/w2/x") (runsOn "/v" "/v2/x")) ∧
    (computeTreeCommandFingerprint plainDigest plainHost (runsOn "/w" "<workspace>") =
        computeTreeCommandFingerprint plainDigest plainHost (runsOn "/v" "/v") ∧
      ¬ Renamed plainHost plainHost (runsOn "/w" "<workspace>") (runsOn "/v" "/v")) ∧
    (computeTreeCommandFingerprint plainDigest plainHost (runsOn "/w" "/w/x") =
        computeTreeCommandFingerprint plainDigest plainHost { runsOn "/w" "/w/x" with
          command := { shell with args := ["/w/x"], stdinMode := some .stream } } ∧
      ¬ Renamed plainHost plainHost (runsOn "/w" "/w/x") { runsOn "/w" "/w/x" with
        command := { shell with args := ["/w/x"], stdinMode := some .stream } }) := by
  refine ⟨⟨?_, fun hrenamed => ?_⟩, ⟨?_, fun hrenamed => ?_⟩, rfl, fun hrenamed => ?_⟩
  · decide +kernel
  · have hargs := hrenamed.args
    revert hargs
    decide +kernel
  · decide +kernel
  · have hargs := hrenamed.args
    revert hargs
    decide +kernel
  · have hmode := hrenamed.stdinMode
    revert hmode
    decide

end Supervisor
end XioFlow
