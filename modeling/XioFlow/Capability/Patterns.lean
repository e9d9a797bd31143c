/-
  XioFlow.Capability.Patterns

  Which mutation roots the paths of a capability admit.

  A pattern is cut at its first wildcard; what is before the cut is made real,
  and the rest is put behind it as it is.  That gives the path which was
  written where the cut leaves the beginning of a name.  Right behind a
  separator it does not: the separator goes, and two names become one.
-/

import XioFlow.Capability.Attenuation
import XioFlow.Lib.Place

namespace XioFlow

open Lib

namespace FileSystem

/-! ## What a file system answers -/

/-- What the host promises of `realpathSync` and `existsSync`: a real path is its own real path, a
    path may be followed from a real prefix, and what is there has its directories. -/
structure Lawful (fs : FileSystem) : Prop where
  cwd : ∀ name ∈ fs.cwd, ProperName name
  proper : ∀ path real, (∀ name ∈ path, ProperName name) → fs.realpathSync path = some real →
    ∀ name ∈ real, ProperName name
  root : fs.realpathSync [] = some []
  exists_iff : ∀ path, fs.existsSync path = (fs.realpathSync path).isSome
  parent : ∀ path rest, fs.realpathSync path = none → fs.realpathSync (path ++ rest) = none
  through : ∀ path real rest, fs.realpathSync path = some real →
    fs.realpathSync (real ++ rest) = fs.realpathSync (path ++ rest)

variable {fs : FileSystem}

/-- The search for an ancestor goes up past everything that does not exist. -/
theorem existingAncestor_skip (up : List String) (pre parts : Path)
    (hmissing : ∀ names name, names ++ [name] <+: up.reverse →
      fs.existsSync (pre ++ (names ++ [name])) = false) :
    fs.existingAncestor (up ++ pre.reverse) parts =
      fs.existingAncestor pre.reverse (up.reverse ++ parts) := by
  induction up generalizing parts with
  | nil => rfl
  | cons name up ih =>
    have hsplit : (name :: up).reverse = up.reverse ++ [name] := List.reverse_cons
    have hhere : fs.existsSync (name :: (up ++ pre.reverse)).reverse = false := by
      have heq : (name :: (up ++ pre.reverse)).reverse = pre ++ (up.reverse ++ [name]) := by
        simp
      rw [heq]
      exact hmissing up.reverse name (hsplit ▸ List.prefix_refl _)
    rw [List.cons_append, existingAncestor, hhere, if_neg Bool.false_ne_true, ih]
    · rw [hsplit, List.append_assoc]
      rfl
    · intro names name' hstarts
      refine hmissing names name' (hstarts.trans ?_)
      rw [hsplit]
      exact List.prefix_append _ _

variable {real : Path}

/-- Up to the first name that is not there, a path is made real. -/
theorem realPath_missing (h : fs.Lawful) {pre : Path} {name : String} {rest : Path}
    (hpre : fs.realpathSync pre = some real) (hname : fs.realpathSync (pre ++ [name]) = none) :
    fs.realPath (pre ++ name :: rest) = real ++ name :: rest := by
  have hnone : fs.realpathSync (pre ++ name :: rest) = none := by
    have hbelow := h.parent (pre ++ [name]) rest hname
    rwa [List.append_assoc] at hbelow
  have hmissing : ∀ names last, names ++ [last] <+: (name :: rest).reverse.reverse →
      fs.existsSync (pre ++ (names ++ [last])) = false := by
    intro names last hstarts
    rw [List.reverse_reverse] at hstarts
    obtain ⟨more, hmore⟩ : ∃ more, names ++ [last] = name :: more := by
      cases names with
      | nil =>
        obtain ⟨rfl, -⟩ := List.cons_prefix_cons.1 hstarts
        exact ⟨[], rfl⟩
      | cons n names =>
        obtain ⟨rfl, -⟩ := List.cons_prefix_cons.1 hstarts
        exact ⟨names ++ [last], rfl⟩
    have hbelow := h.parent (pre ++ [name]) more hname
    rw [h.exists_iff, hmore, show pre ++ name :: more = pre ++ [name] ++ more by simp, hbelow]
    rfl
  have hancestor : fs.existingAncestor (pre ++ name :: rest).reverse [] =
      (pre, name :: rest) := by
    rw [List.reverse_append, existingAncestor_skip (name :: rest).reverse pre [] hmissing,
      List.reverse_reverse, List.append_nil]
    cases hup : pre.reverse with
    | nil =>
      rw [List.reverse_eq_nil_iff.1 hup]
      rfl
    | cons last up =>
      have hpath : (last :: up).reverse = pre := by
        rw [← hup, List.reverse_reverse]
      rw [existingAncestor, hpath, h.exists_iff, hpre, Option.isSome_some, if_pos rfl]
  unfold realPath
  rw [hnone, hancestor]
  show (fs.realpathSync pre).getD pre ++ name :: rest = _
  rw [hpre, Option.getD_some]

variable {path : Path}

theorem realPath_some (h : fs.realpathSync path = some real) :
    fs.realPath path = real := by
  unfold realPath
  rw [h]

/-- A real path is its own real path. -/
theorem realpathSync_self (h : fs.Lawful) (hreal : fs.realpathSync path = some real) :
    fs.realpathSync real = some real := by
  have hhere := h.through path real [] hreal
  rw [List.append_nil, List.append_nil] at hhere
  exact hhere.trans hreal

/-- Below a path that is there, another one is, or there is a first name that is not. -/
theorem exists_missing {pre : Path} (hpre : fs.realpathSync pre = some real) (path : Path) :
    (∃ real', fs.realpathSync (pre ++ path) = some real') ∨
    ∃ pre' real' name rest, pre ++ path = pre' ++ name :: rest ∧
      fs.realpathSync pre' = some real' ∧ fs.realpathSync (pre' ++ [name]) = none := by
  induction path generalizing pre real with
  | nil => exact .inl ⟨real, by rw [List.append_nil, hpre]⟩
  | cons name path ih =>
    cases hname : fs.realpathSync (pre ++ [name]) with
    | none => exact .inr ⟨pre, real, name, path, rfl, hpre, hname⟩
    | some =>
      have hrest := ih hname
      rw [List.append_assoc] at hrest
      exact hrest

/-- A path that is there may be replaced by its real path. -/
theorem realPath_through (h : fs.Lawful) (hreal : fs.realpathSync path = some real)
    (rest : Path) : fs.realPath (path ++ rest) = fs.realPath (real ++ rest) := by
  induction rest generalizing path real with
  | nil =>
    rw [List.append_nil, List.append_nil, realPath_some hreal,
      realPath_some (realpathSync_self h hreal)]
  | cons name rest ih =>
    have hboth := h.through path real [name] hreal
    cases hname : fs.realpathSync (path ++ [name]) with
    | none =>
      rw [realPath_missing h hreal hname,
        realPath_missing h (realpathSync_self h hreal) (hboth.trans hname)]
    | some =>
      have hpath := ih hname
      have hsame := ih (hboth.trans hname)
      rw [List.append_assoc] at hpath hsame
      exact hpath.trans hsame.symm

/-- A path may be made real in two steps. -/
theorem realPath_append (h : fs.Lawful) (path rest : Path) :
    fs.realPath (fs.realPath path ++ rest) = fs.realPath (path ++ rest) := by
  rcases exists_missing h.root path with ⟨real, hreal⟩ | ⟨pre, real, name, more, hpath, hpre, hname⟩
  · rw [List.nil_append] at hreal
    rw [realPath_some hreal, realPath_through h hreal]
  · rw [List.nil_append] at hpath
    subst hpath
    have hmissing : fs.realpathSync (real ++ [name]) = none :=
      (h.through pre real [name] hpre).trans hname
    rw [realPath_missing h hpre hname, List.append_assoc, List.append_assoc, List.cons_append,
      realPath_missing h hpre hname, realPath_missing h (realpathSync_self h hpre) hmissing]

theorem realPath_proper (h : fs.Lawful) (hpath : ∀ name ∈ path, ProperName name) :
    ∀ name ∈ fs.realPath path, ProperName name := by
  rcases exists_missing h.root path with ⟨real, hreal⟩ | ⟨pre, real, name, more, heq, hpre, hname⟩
  · rw [List.nil_append] at hreal
    rw [realPath_some hreal]
    exact h.proper path real hpath hreal
  · rw [List.nil_append] at heq
    subst heq
    rw [realPath_missing h hpre hname]
    intro n hn
    rcases List.mem_append.1 hn with hreal | hmore
    · exact h.proper pre real (fun m hm => hpath m (List.mem_append_left _ hm)) hpre n hreal
    · exact hpath n (List.mem_append_right _ hmore)

end FileSystem

/-! ## Containment by names -/

/-- The path as the file system has it. -/
def FileSystem.real (fs : FileSystem) (p : String) : Path := fs.realPath (fs.resolve p)

variable {fs : FileSystem}

theorem FileSystem.real_proper (h : fs.Lawful) (p : String) : ∀ name ∈ fs.real p, ProperName name :=
  FileSystem.realPath_proper h (fs.resolve_proper h.cwd p)

theorem FileSystem.resolveRealPath_eq (fs : FileSystem) (p : String) :
    fs.resolveRealPath p = renderPath (fs.real p) := rfl

variable {path : Path}

theorem toList_renderPath (h : path ≠ []) :
    (renderPath path).toList = path.flatMap fun name => '/' :: name.toList := by
  unfold renderPath
  rw [if_neg h, String.toList_ofList]

/-- Names can be read off the text. -/
theorem renderPath_injective {a b : Path} (ha : ∀ name ∈ a, ProperName name)
    (hb : ∀ name ∈ b, ProperName name) (h : renderPath a = renderPath b) : a = b := by
  have hread := congrArg ((⟨[], some, fun _ => true⟩ : FileSystem).resolve) h
  rw [FileSystem.resolve_renderPath _ ha, FileSystem.resolve_renderPath _ hb] at hread
  exact hread

/-- A rendered path does not end in a separator, unless it is the root. -/
theorem getLast?_renderPath (hne : path ≠ []) (h : ∀ name ∈ path, ProperName name) :
    (renderPath path).toList.getLast? ≠ some '/' := by
  obtain ⟨init, name, rfl⟩ := List.eq_nil_or_concat path |>.resolve_left hne
  have hname := h name (by simp)
  have hlast : ((init ++ [name]).flatMap fun name => '/' :: name.toList).getLast? =
      name.toList.getLast? := by
    rw [List.flatMap_append, List.flatMap_singleton, List.getLast?_append_cons,
      List.getLast?_cons_of_ne_nil hname.1]
  rw [List.concat_eq_append, toList_renderPath (by simp), hlast]
  intro heq
  exact hname.2.1 (List.mem_of_getLast? heq)

/-- The parts of a text that goes on behind a rendered path. -/
theorem splitAtChar_flatMap_append (h : ∀ name ∈ path, ProperName name) (rest : List Char) :
    splitAtChar '/' ((path.flatMap fun name => '/' :: name.toList) ++ '/' :: rest) =
      [] :: path.map String.toList ++ splitAtChar '/' rest := by
  have hpath := splitAtChar_flatMap h
  obtain ⟨init, last, hlast⟩ :=
    List.eq_nil_or_concat ([] :: path.map String.toList) |>.resolve_left (List.cons_ne_nil _ _)
  rw [List.concat_eq_append] at hlast
  rw [hlast] at hpath
  have hrest : splitAtChar '/' ('/' :: rest) = [] :: splitAtChar '/' rest := by
    rw [splitAtChar, if_pos rfl]
  rw [splitAtChar_join hpath hrest, List.append_nil, hlast, List.append_assoc]
  rfl

/-- One rendered path goes on behind a separator exactly where it has more names. -/
theorem hasPrefix_renderPath {parent child : Path} (hne : parent ≠ [])
    (hp : ∀ name ∈ parent, ProperName name) (hc : ∀ name ∈ child, ProperName name) :
    hasPrefix (renderPath parent ++ "/") (renderPath child) = true ↔
      ∃ name rest, child = parent ++ name :: rest := by
  rw [hasPrefix_iff, String.toList_append, toList_renderPath hne]
  constructor
  · rintro ⟨rest, hrest⟩
    have hchild : child ≠ [] := by
      rintro rfl
      have hlen := congrArg List.length hrest
      have hlong : 0 < (renderPath parent).toList.length :=
        List.length_pos_iff.2 (renderPath_ne_empty parent)
      have hone : (renderPath []).toList.length = 1 := rfl
      have hsep : "/".toList.length = 1 := rfl
      rw [toList_renderPath hne] at hlong
      rw [List.length_append, List.length_append] at hlen
      omega
    rw [toList_renderPath hchild, List.append_assoc] at hrest
    have hsplit := splitAtChar_flatMap_append hp rest
    rw [show '/' :: rest = "/".toList ++ rest from rfl, hrest, splitAtChar_flatMap hc] at hsplit
    have hnames := (List.cons.inj hsplit).2
    obtain ⟨first, more, hmore⟩ := List.exists_cons_of_ne_nil (splitAtChar_ne_nil '/' rest)
    rw [hmore] at hnames
    obtain ⟨init, tail, rfl, hinit, htail⟩ := List.map_eq_append_iff.1 hnames
    have hparent : init = parent :=
      List.map_injective_iff.2 (fun _ _ => String.toList_inj.1) hinit
    obtain ⟨name, names, rfl, -, -⟩ := List.map_eq_cons_iff.1 htail
    exact ⟨name, names, by rw [hparent]⟩
  · rintro ⟨name, rest, rfl⟩
    rw [toList_renderPath (by simp), List.flatMap_append, List.flatMap_cons]
    exact ⟨name.toList ++ rest.flatMap fun name => '/' :: name.toList, by simp⟩

/-- The code's test on texts is containment by names. -/
theorem isPathContained_iff (h : fs.Lawful) (a b : String) :
    fs.isPathContained a b = true ↔ fs.real a <+: fs.real b := by
  have ha := FileSystem.real_proper h a
  have hb := FileSystem.real_proper h b
  unfold FileSystem.isPathContained
  simp only [Bool.or_eq_true, decide_eq_true_eq]
  by_cases hroot : fs.real a = []
  · have hslash : fs.resolveRealPath a = "/" := congrArg renderPath hroot
    rw [hroot]
    exact iff_of_true (.inl (.inr hslash)) List.nil_prefix
  have hlast : (fs.resolveRealPath a).toList.getLast? ≠ some '/' := getLast?_renderPath hroot ha
  rw [if_neg hlast, FileSystem.resolveRealPath_eq, FileSystem.resolveRealPath_eq,
    hasPrefix_renderPath hroot ha hb]
  constructor
  · rintro ((heq | hslash) | ⟨name, rest, heq⟩)
    · have hreal : fs.real a = fs.real b := renderPath_injective ha hb heq
      exact hreal ▸ List.prefix_refl _
    · have hrendered : renderPath (fs.real a) = renderPath [] := hslash
      exact absurd (renderPath_injective ha (by simp) hrendered) hroot
    · rw [heq]
      exact List.prefix_append _ _
  · rintro ⟨rest, heq⟩
    cases rest with
    | nil =>
      rw [List.append_nil] at heq
      exact .inl (.inl (congrArg renderPath heq))
    | cons name rest => exact .inr ⟨name, rest, heq.symm⟩

/-! ## Patterns that are read as written -/

/-- What is before the first wildcard. -/
def beforeWildcard (value : String) : List Char := value.toList.takeWhile fun c => !isWildcard c

/-- What is from the first wildcard on. -/
def fromWildcard (value : String) : List Char := value.toList.dropWhile fun c => !isWildcard c

section Written

variable (fs : FileSystem) (value : String)

/-- The directory of the name that has the first wildcard. -/
def patternDir : Path :=
  resolveSegments (if hasPrefix "/" value then [] else fs.cwd)
    (splitAtChar '/' (beforeWildcard value)).dropLast

/-- What that name starts with. -/
def patternStart : List Char := ((splitAtChar '/' (beforeWildcard value)).getLast?).getD []

/-- The cut leaves a name that stands for itself in its directory, or nothing in the root. -/
def CutsCleanly : Prop :=
  (ProperName (String.ofList (patternStart value)) ∧
    fs.realPath (patternDir fs value ++ [String.ofList (patternStart value)]) =
      fs.realPath (patternDir fs value) ++ [String.ofList (patternStart value)]) ∨
  (patternStart value = [] ∧ fs.realPath (patternDir fs value) = [])

/-- The value has no wildcard, or it is cut cleanly and nothing behind the cut goes up past it. -/
def AsWritten : Prop :=
  fromWildcard value = [] ∨
  (CutsCleanly fs value ∧ climbs 0 (splitAtChar '/' (fromWildcard value)).tail = false)

end Written

/-- Segments that do not climb are resolved below any directory in the same way. -/
theorem resolveSegments_below {segs : List (List Char)} {names : Path}
    (h : climbs names.length segs = false) (base : Path) :
    resolveSegments (base ++ names) segs = base ++ resolveSegments names segs := by
  induction segs generalizing names with
  | nil => rfl
  | cons seg segs ih =>
    rw [climbs] at h
    rw [resolveSegments, resolveSegments]
    by_cases hskip : seg = [] ∨ seg = ['.']
    · rw [if_pos hskip] at h
      rw [if_pos hskip, if_pos hskip]
      exact ih h
    rw [if_neg hskip] at h
    rw [if_neg hskip, if_neg hskip]
    by_cases hdots : seg = ['.', '.']
    · rw [if_pos hdots] at h
      rw [if_pos hdots, if_pos hdots]
      by_cases hempty : names.length = 0
      · rw [if_pos hempty] at h
        cases h
      rw [if_neg hempty, ← List.length_dropLast] at h
      have hne : names ≠ [] := fun heq => hempty (congrArg List.length heq)
      rw [List.dropLast_append_of_ne_nil hne]
      exact ih h
    · rw [if_neg hdots] at h
      rw [if_neg hdots, if_neg hdots, List.append_assoc]
      apply ih
      rw [List.length_append]
      exact h

theorem ordinary_of_wildcard {seg : List Char} (hwild : ∃ c ∈ seg, isWildcard c = true) :
    seg ≠ [] ∧ seg ≠ ['.'] ∧ seg ≠ ['.', '.'] := by
  obtain ⟨c, hmem, hc⟩ := hwild
  have hdot : c ≠ '.' := by
    rintro rfl
    revert hc
    decide
  refine ⟨List.ne_nil_of_mem hmem, ?_, ?_⟩
  · rintro rfl
    exact hdot (List.mem_singleton.1 hmem)
  · rintro rfl
    rw [List.mem_cons, List.mem_singleton, or_self] at hmem
    exact hdot hmem

/-- A name with a wildcard in it is a name, and what is behind it stays below it. -/
theorem resolveSegments_wildcard {start first : List Char} {tail : List (List Char)}
    (hfirst : ∃ c ∈ first, isWildcard c = true) (hclimbs : climbs 0 tail = false) (base : Path) :
    resolveSegments base ((start ++ first) :: tail) =
      base ++ String.ofList (start ++ first) :: resolveSegments [] tail := by
  obtain ⟨c, hc, hwild⟩ := hfirst
  obtain ⟨hempty, hdot, hdots⟩ := ordinary_of_wildcard ⟨c, List.mem_append_right start hc, hwild⟩
  rw [resolveSegments, if_neg (not_or.2 ⟨hempty, hdot⟩), if_neg hdots]
  have hbelow := @resolveSegments_below tail [] hclimbs (base ++ [String.ofList (start ++ first)])
  rw [List.append_nil, List.append_assoc] at hbelow
  exact hbelow

/-- From the first wildcard on, the text starts with a part that has it. -/
theorem splitAtChar_fromWildcard {value : String} (h : fromWildcard value ≠ []) :
    ∃ first tail, splitAtChar '/' (fromWildcard value) = first :: tail ∧
      ∃ c ∈ first, isWildcard c = true := by
  obtain ⟨c, cs, hcs⟩ := List.exists_cons_of_ne_nil h
  have hwild : isWildcard c = true := by
    have hhead := List.head?_dropWhile_not (fun c => !isWildcard c) value.toList
    unfold fromWildcard at hcs
    rw [hcs, List.head?_cons] at hhead
    simpa using hhead
  have hne : c ≠ '/' := by
    rintro rfl
    revert hwild
    decide
  obtain ⟨part, parts, hparts⟩ := List.exists_cons_of_ne_nil (splitAtChar_ne_nil '/' cs)
  refine ⟨c :: part, parts, ?_, c, List.mem_cons_self, hwild⟩
  rw [hcs, splitAtChar, if_neg hne, hparts]

theorem value_eq (value : String) : value.toList = beforeWildcard value ++ fromWildcard value :=
  (List.takeWhile_append_dropWhile).symm

theorem split_beforeWildcard (value : String) :
    splitAtChar '/' (beforeWildcard value) =
      (splitAtChar '/' (beforeWildcard value)).dropLast ++ [patternStart value] := by
  have hne := splitAtChar_ne_nil '/' (beforeWildcard value)
  unfold patternStart
  rw [List.getLast?_eq_some_getLast hne, Option.getD_some, List.dropLast_concat_getLast hne]

section Reading

variable {fs : FileSystem} {value : String}

/-- Where a value with a wildcard is, resolved as it is written. -/
theorem resolve_pattern {first : List Char} {tail : List (List Char)}
    (hsplit : splitAtChar '/' (fromWildcard value) = first :: tail)
    (hfirst : ∃ c ∈ first, isWildcard c = true) (hclimbs : climbs 0 tail = false) :
    fs.resolve value = patternDir fs value ++
      String.ofList (patternStart value ++ first) :: resolveSegments [] tail := by
  unfold FileSystem.resolve
  rw [value_eq value, splitAtChar_join (split_beforeWildcard value) hsplit,
    resolveSegments_append, resolveSegments_wildcard hfirst hclimbs]
  rfl

/-- Where the part before the wildcard is. -/
theorem resolve_beforeWildcard (h : beforeWildcard value ≠ []) :
    fs.resolve (String.ofList (beforeWildcard value)) =
      resolveSegments (patternDir fs value) [patternStart value] := by
  have hbase : hasPrefix "/" (String.ofList (beforeWildcard value)) = hasPrefix "/" value := by
    obtain ⟨c, cs, hcs⟩ := List.exists_cons_of_ne_nil h
    have hvalue : value.toList = c :: cs ++ fromWildcard value := by
      rw [← hcs]
      exact value_eq value
    unfold hasPrefix
    simp only [hvalue, hcs, String.toList_ofList]
    rfl
  unfold FileSystem.resolve patternDir
  rw [hbase, String.toList_ofList, ← resolveSegments_append, ← split_beforeWildcard]

theorem patternDir_proper (h : fs.Lawful) : ∀ name ∈ patternDir fs value, ProperName name := by
  unfold patternDir
  refine resolveSegments_proper (fun seg hseg => ?_) ?_
  · exact not_mem_of_splitAtChar (List.dropLast_subset _ hseg)
  · split
    · simp
    · exact h.cwd

theorem patternStart_no_separator (value : String) : '/' ∉ patternStart value := by
  have hmem : patternStart value ∈ splitAtChar '/' (beforeWildcard value) := by
    rw [split_beforeWildcard value]
    exact List.mem_append_right _ List.mem_cons_self
  exact not_mem_of_splitAtChar hmem

/-- Without a part before it, the wildcard is in a name of the working directory. -/
theorem pattern_of_nil (h : beforeWildcard value = []) (hwild : fromWildcard value ≠ []) :
    patternDir fs value = fs.cwd ∧ patternStart value = [] := by
  have habs : hasPrefix "/" value = false := by
    obtain ⟨c, cs, hcs⟩ := List.exists_cons_of_ne_nil hwild
    have hvalue : value.toList = c :: cs := by
      rw [value_eq value, h, hcs]
      rfl
    unfold hasPrefix
    rw [hvalue]
    by_cases hc : c = '/'
    · subst hc
      unfold beforeWildcard at h
      rw [hvalue] at h
      cases h
    · simp [List.isPrefixOf, Ne.symm hc]
  unfold patternDir patternStart
  rw [habs, h]
  exact ⟨rfl, rfl⟩

theorem real_resolveRealPath (h : fs.Lawful) (p : String) :
    fs.real (fs.resolveRealPath p) = fs.real p := by
  have hresolve : fs.resolve (fs.resolveRealPath p) = fs.real p :=
    fs.resolve_renderPath (FileSystem.real_proper h p)
  have htwice := FileSystem.realPath_append h (fs.resolve p) []
  rw [List.append_nil, List.append_nil] at htwice
  unfold FileSystem.real
  rw [hresolve]
  exact htwice

/-- What the part before the wildcard is made into. -/
theorem real_beforeWildcard (hcut : CutsCleanly fs value) (hwild : fromWildcard value ≠ []) :
    fs.real (if beforeWildcard value = [] then "." else String.ofList (beforeWildcard value)) =
      fs.realPath (patternDir fs value) ++
        (if patternStart value = [] then [] else [String.ofList (patternStart value)]) := by
  unfold FileSystem.real
  by_cases hnil : beforeWildcard value = []
  · obtain ⟨hdir, hstart⟩ := @pattern_of_nil fs value hnil hwild
    rw [if_pos hnil, if_pos hstart, hdir, List.append_nil]
    rfl
  · rw [if_neg hnil, resolve_beforeWildcard hnil]
    rcases hcut with ⟨hproper, hreal⟩ | ⟨hstart, hroot⟩
    · have hname : patternStart value ≠ [] := by
        intro heq
        exact hproper.1 (by rw [heq]; rfl)
      have hseg : resolveSegments (patternDir fs value) [patternStart value] =
          patternDir fs value ++ [String.ofList (patternStart value)] := by
        have hnames := @resolveSegments_names [String.ofList (patternStart value)]
          (by simpa using hproper) (patternDir fs value)
        rw [List.map_singleton, String.toList_ofList] at hnames
        exact hnames
      rw [if_neg hname, hseg, hreal]
    · rw [if_pos hstart, hstart, List.append_nil]
      rfl

/-- A text that goes on behind a rendered path. -/
theorem resolve_behind {dir : Path} (hdir : ∀ name ∈ dir, ProperName name) {text : String}
    {cs : List Char}
    (h : text.toList = (dir.flatMap fun name => '/' :: name.toList) ++ '/' :: cs) :
    fs.resolve text = resolveSegments dir (splitAtChar '/' cs) := by
  have habs : hasPrefix "/" text = true := by
    rw [hasPrefix_iff, h]
    cases dir with
    | nil => exact ⟨cs, rfl⟩
    | cons =>
      rw [List.flatMap_cons, List.cons_append, List.cons_append]
      exact ⟨_, rfl⟩
  unfold FileSystem.resolve
  rw [if_pos habs, h, splitAtChar_flatMap_append hdir, List.cons_append, resolveSegments,
    if_pos (.inl rfl), resolveSegments_append, resolveSegments_names hdir, List.nil_append]

/-- A value that is cut cleanly is normalized to a text that is read as the value was written. -/
theorem real_normalizePathPattern (h : fs.Lawful) (hwritten : AsWritten fs value) :
    fs.real (normalizePathPattern fs value) = fs.real value := by
  by_cases hwild : fromWildcard value = []
  · have hnormal : normalizePathPattern fs value = fs.resolveRealPath value := if_pos hwild
    rw [hnormal, real_resolveRealPath h]
  obtain ⟨hcut, hclimbs⟩ := hwritten.resolve_left hwild
  obtain ⟨first, tail, hsplit, hfirst⟩ := splitAtChar_fromWildcard hwild
  rw [hsplit, List.tail_cons] at hclimbs
  have hnormal : normalizePathPattern fs value =
      renderPath (fs.realPath (patternDir fs value) ++
        (if patternStart value = [] then [] else [String.ofList (patternStart value)])) ++
      String.ofList (fromWildcard value) := by
    rw [← real_beforeWildcard hcut hwild]
    exact if_neg hwild
  -- the text is read below the real directory, and a directory may be made real first
  have hresolve : fs.resolve (normalizePathPattern fs value) = fs.realPath (patternDir fs value) ++
      String.ofList (patternStart value ++ first) :: resolveSegments [] tail := by
    have hdir : ∀ name ∈ fs.realPath (patternDir fs value), ProperName name :=
      FileSystem.realPath_proper h (patternDir_proper h)
    have hbehind : (normalizePathPattern fs value).toList =
        ((fs.realPath (patternDir fs value)).flatMap fun name => '/' :: name.toList) ++
          '/' :: (patternStart value ++ fromWildcard value) := by
      rw [hnormal, String.toList_append, String.toList_ofList]
      rcases hcut with ⟨hproper, -⟩ | ⟨hstart, hroot⟩
      · have hname : patternStart value ≠ [] := by
          intro heq
          exact hproper.1 (by rw [heq]; rfl)
        rw [if_neg hname, toList_renderPath (by simp)]
        simp
      · rw [if_pos hstart, hroot, hstart]
        rfl
    have hjoined : splitAtChar '/' (patternStart value ++ fromWildcard value) =
        (patternStart value ++ first) :: tail := by
      have hstart : splitAtChar '/' (patternStart value) = [] ++ [patternStart value] := by
        have hone := splitAtChar_append (patternStart_no_separator value) []
        rw [List.append_nil] at hone
        rw [hone]
        simp [splitAtChar]
      exact splitAtChar_join hstart hsplit
    rw [resolve_behind hdir hbehind, hjoined, resolveSegments_wildcard hfirst hclimbs]
  unfold FileSystem.real
  rw [hresolve, FileSystem.realPath_append h, ← resolve_pattern hsplit hfirst hclimbs]

end Reading

/-! ## Resolved patterns -/

theorem flatMap_splitAtChar (text : List Char) :
    (splitAtChar '/' text).flatMap (fun seg => '/' :: seg) = '/' :: text := by
  induction text with
  | nil => rfl
  | cons c text ih =>
    by_cases hsep : c = '/'
    · rw [hsep, splitAtChar, if_pos rfl, List.flatMap_cons, ih]
      rfl
    · obtain ⟨seg, segs, hsegs⟩ := List.exists_cons_of_ne_nil (splitAtChar_ne_nil '/' text)
      rw [hsegs, List.flatMap_cons, List.cons_append, List.cons.injEq] at ih
      rw [splitAtChar, if_neg hsep, hsegs, List.flatMap_cons, List.cons_append, List.cons_append,
        ih.2]

/-- A text that is a separator before each of some names is resolved already. -/
theorem render_resolve (fs : FileSystem) {text : List Char} {segs : List (List Char)}
    (hsplit : splitAtChar '/' text = [] :: segs) (hne : segs ≠ [])
    (hproper : ∀ seg ∈ segs, ProperName (String.ofList seg)) :
    renderPath (fs.resolve (String.ofList text)) = String.ofList text := by
  have htext : segs.flatMap (fun seg => '/' :: seg) = text := by
    have hwhole := flatMap_splitAtChar text
    rw [hsplit, List.flatMap_cons, List.cons_append, List.nil_append, List.cons.injEq] at hwhole
    exact hwhole.2
  have hnames : ∀ name ∈ segs.map String.ofList, ProperName name := by
    intro name hname
    obtain ⟨seg, hseg, rfl⟩ := List.mem_map.1 hname
    exact hproper seg hseg
  have hrender : renderPath (segs.map String.ofList) = String.ofList text := by
    unfold renderPath
    rw [if_neg (by simpa using hne), List.flatMap_map, ← htext]
    simp
  rw [← hrender, fs.resolve_renderPath hnames]

theorem properName_of_wildcard {seg : List Char} (hwild : ∃ c ∈ seg, isWildcard c = true)
    (hsep : '/' ∉ seg) : ProperName (String.ofList seg) := by
  unfold ProperName
  rw [String.toList_ofList]
  obtain ⟨hempty, hdot, hdots⟩ := ordinary_of_wildcard hwild
  exact ⟨hempty, hsep, hdot, hdots⟩

/-- The parts of a rendered path: names, and for the root an empty one. -/
theorem split_renderPath {path : Path} (h : ∀ name ∈ path, ProperName name) :
    ∃ init last, splitAtChar '/' (renderPath path).toList = [] :: init ++ [last] ∧ '/' ∉ last ∧
      ∀ seg ∈ init, ProperName (String.ofList seg) := by
  rcases List.eq_nil_or_concat path with rfl | ⟨names, name, rfl⟩
  · exact ⟨[], [], rfl, List.not_mem_nil, fun _ hseg => absurd hseg List.not_mem_nil⟩
  · rw [List.concat_eq_append] at h ⊢
    refine ⟨names.map String.toList, name.toList, ?_, (h name (by simp)).2.1, fun seg hseg => ?_⟩
    · rw [toList_renderPath (by simp), splitAtChar_flatMap h, List.map_append]
      rfl
    · obtain ⟨n, hn, rfl⟩ := List.mem_map.1 hseg
      rw [String.ofList_toList]
      exact h n (List.mem_append_left _ hn)

/-- A resolved path is normalized to a text that is resolved, wildcards or not. -/
theorem resolve_normalizePathPattern (h : fs.Lawful) {path : Path}
    (hpath : ∀ name ∈ path, ProperName name) :
    renderPath (fs.resolve (normalizePathPattern fs (renderPath path))) =
      normalizePathPattern fs (renderPath path) := by
  by_cases hwild : fromWildcard (renderPath path) = []
  · have hnormal : normalizePathPattern fs (renderPath path) =
        fs.resolveRealPath (renderPath path) := if_pos hwild
    rw [hnormal, fs.resolveRealPath_eq, fs.resolve_renderPath (fs.real_proper h _)]
  · -- what is behind the cut goes on in the last name before it, and then in names of the path
    obtain ⟨first, tail, hsplit, hfirst⟩ := splitAtChar_fromWildcard hwild
    obtain ⟨start, hnormal⟩ : ∃ start : Path, (∀ name ∈ start, ProperName name) ∧
        normalizePathPattern fs (renderPath path) =
          renderPath start ++ String.ofList (fromWildcard (renderPath path)) :=
      ⟨_, fs.real_proper h _, if_neg hwild⟩
    obtain ⟨init, last, hstart, hlast, hinit⟩ := split_renderPath hnormal.1
    have hmem : ∀ seg ∈ first :: tail, '/' ∉ seg := by
      rw [← hsplit]
      exact fun seg hseg => not_mem_of_splitAtChar hseg
    have htail : ∀ seg ∈ tail, ProperName (String.ofList seg) := by
      have hne : path ≠ [] := by
        rintro rfl
        exact hwild rfl
      have hwhole := splitAtChar_flatMap hpath
      rw [← toList_renderPath hne, value_eq (renderPath path),
        splitAtChar_join (split_beforeWildcard (renderPath path)) hsplit] at hwhole
      have hsub : tail ⊆ path.map String.toList := by
        generalize (splitAtChar '/' (beforeWildcard (renderPath path))).dropLast = before at hwhole
        cases before with
        | nil => exact (List.cons.inj hwhole).2 ▸ List.Subset.refl _
        | cons part parts =>
          rw [← (List.cons.inj hwhole).2]
          exact fun seg hseg => List.mem_append_right _ (List.mem_cons_of_mem _ hseg)
      intro seg hseg
      obtain ⟨name, hn, rfl⟩ := List.mem_map.1 (hsub hseg)
      rw [String.ofList_toList]
      exact hpath name hn
    have htext : normalizePathPattern fs (renderPath path) =
        String.ofList ((renderPath start).toList ++ fromWildcard (renderPath path)) := by
      rw [hnormal.2, String.ofList_append, String.ofList_toList]
    have hjoined := splitAtChar_join hstart hsplit
    rw [List.cons_append] at hjoined
    rw [htext]
    refine render_resolve fs hjoined (by simp) fun seg hseg => ?_
    rcases List.mem_append.1 hseg with hold | hnew
    · exact hinit seg hold
    · rcases List.mem_cons.1 hnew with rfl | hmore
      · obtain ⟨c, hc, hcw⟩ := hfirst
        refine properName_of_wildcard ⟨c, List.mem_append_right _ hc, hcw⟩ fun hsep => ?_
        exact (List.mem_append.1 hsep).elim hlast (hmem first List.mem_cons_self)
      · exact htail seg hmore

/-! ## Admission -/

/-- The paths that a scope is issued for. -/
def CapabilityScopeInput.issuedPaths (scope : CapabilityScopeInput) : List String :=
  scope.paths.getD (scope.write.getD [])

/-- The real path of the root is that of an issued path, or below it. -/
def InsideIssued (fs : FileSystem) (issued : List String) (r : String) : Prop :=
  ∃ p ∈ issued, fs.real p <+: fs.real r

/-- An issued capability has the scope that was asked for, normalized. -/
theorem issuedCapability_scope {d : ExecutionDomain} {args : IssueArguments} {suffix : String}
    {now : Timestamp} {cap : Capability} (h : issuedCapability fs d args suffix now = .ok cap) :
    cap.scope = normalizeScope fs args.scope := by
  unfold issuedCapability at h
  split at h
  · cases h
  · split at h
    · cases h
    · split at h
      · cases h
      · obtain ⟨limits, -, hcap⟩ := except_bind_ok h
        cases hcap
        rfl

section Admission

variable {fs : FileSystem} {issued roots : List String}

/-- Where everything is read as written, the test on normalized texts is containment of the paths
    that were issued and asked for. -/
theorem contained_iff_insideIssued (h : fs.Lawful) (hissued : ∀ p ∈ issued, AsWritten fs p)
    (hstored : ∀ q ∈ normalizePaths fs issued, AsWritten fs q) {r : String}
    (hr : AsWritten fs r) :
    (∃ cw ∈ normalizePaths fs (normalizePaths fs issued),
      fs.isPathContained cw (normalizePathPattern fs r) = true) ↔ InsideIssued fs issued r := by
  have hread : ∀ p ∈ issued,
      fs.real (normalizePathPattern fs (normalizePathPattern fs p)) = fs.real p := by
    intro p hp
    have hmem : normalizePathPattern fs p ∈ normalizePaths fs issued :=
      mem_normalizePaths.2 ⟨p, hp, rfl⟩
    rw [real_normalizePathPattern h (hstored _ hmem), real_normalizePathPattern h (hissued p hp)]
  constructor
  · rintro ⟨cw, hcw, hcontained⟩
    obtain ⟨q, hq, rfl⟩ := mem_normalizePaths.1 hcw
    obtain ⟨p, hp, rfl⟩ := mem_normalizePaths.1 hq
    rw [isPathContained_iff h, hread p hp, real_normalizePathPattern h hr] at hcontained
    exact ⟨p, hp, hcontained⟩
  · rintro ⟨p, hp, hinside⟩
    refine ⟨normalizePathPattern fs (normalizePathPattern fs p),
      mem_normalizePaths.2 ⟨_, mem_normalizePaths.2 ⟨p, hp, rfl⟩, rfl⟩, ?_⟩
    rw [isPathContained_iff h, hread p hp, real_normalizePathPattern h hr]
    exact hinside

/-- Only the check of mutation roots looks at them. -/
theorem withinScope_of_roots {options : CheckCapabilityAdmissionOptions} {cap : Capability}
    {free : CapabilityAdmissionResult} {roots : List String}
    (hfree : withinScope fs { options with mutationRoots := none } cap = .ok free)
    (hroots : effectiveMutationRoots fs options (normalizeScope fs cap.scope.toInput) =
      .ok roots) :
    ∃ result, withinScope fs options cap = .ok result := by
  obtain ⟨hscope, hlimits, hresources, -⟩ := withinScope_ok_iff.1 hfree
  exact ⟨⟨{ cap with scope := cap.effectiveScope fs }, free.effectiveResources, roots, cap.limits⟩,
    withinScope_ok_iff.2 ⟨hscope, hlimits, hresources, hroots, rfl, rfl⟩⟩

theorem effectiveMutationRoots_of_accepts {s : SqliteStore} {now : Timestamp}
    {options : CheckCapabilityAdmissionOptions} {result : CapabilityAdmissionResult}
    {cap : Capability} (hcap : storedCapability s options.capabilityId = some cap)
    (h : Accepts fs s now options result) :
    effectiveMutationRoots fs options (normalizeScope fs cap.scope.toInput) =
      .ok result.effectiveMutationRoots := by
  obtain ⟨cap', hcap', -, -, hwithin⟩ := admission_ok_iff.1 (accepts_iff.1 h)
  obtain rfl : cap' = cap := by
    rw [hcap] at hcap'
    exact (Option.some.inj hcap').symm
  exact (withinScope_ok_iff.1 hwithin).2.2.2.1

/-- Where every path is read as it was written, a request is admitted only for roots inside an
    issued path, and roots inside one never turn a request away. -/
theorem admits_exactly_inside (h : fs.Lawful) {d : ExecutionDomain} {args : IssueArguments}
    {suffix : String} {issuedAt : Timestamp} {cap : Capability}
    (hissue : issuedCapability fs d args suffix issuedAt = .ok cap)
    (hissued : ∀ p ∈ args.scope.issuedPaths, AsWritten fs p)
    (hstored : ∀ q ∈ cap.scope.paths, AsWritten fs q)
    {s : SqliteStore} {options : CheckCapabilityAdmissionOptions}
    (hcap : s.getCapability options.capabilityId = some cap)
    (hroots : options.mutationRoots = some roots) (hwritten : ∀ r ∈ roots, AsWritten fs r)
    (now : Timestamp) :
    (∀ result, Accepts fs s now options result →
      ∀ r ∈ roots, InsideIssued fs args.scope.issuedPaths r) ∧
    (∀ free, Accepts fs s now { options with mutationRoots := none } free →
      (∀ r ∈ roots, InsideIssued fs args.scope.issuedPaths r) →
      ∃ result, Accepts fs s now options result) := by
  have hrow : storedCapability s options.capabilityId = some (mapCapabilityRow cap) := by
    unfold storedCapability
    rw [hcap]
    rfl
  have hpaths : (normalizeScope fs (mapCapabilityRow cap).scope.toInput).paths =
      normalizePaths fs (normalizePaths fs args.scope.issuedPaths) := by
    show normalizePaths fs cap.scope.paths = _
    rw [issuedCapability_scope hissue]
    rfl
  rw [issuedCapability_scope hissue] at hstored
  have hgiven : options.mutationRoots.getD [] = roots := by rw [hroots, Option.getD_some]
  constructor
  · intro result haccepts r hr
    have hne : options.mutationRoots.getD [] ≠ [] := by
      rw [hgiven]
      exact List.ne_nil_of_mem hr
    rcases effectiveMutationRoots_ok_iff.1 (effectiveMutationRoots_of_accepts hrow haccepts) with
      ⟨hnone, -⟩ | ⟨-, heffective, hall⟩
    · exact absurd hnone hne
    · rw [hpaths] at hall
      have hmem : normalizePathPattern fs r ∈ result.effectiveMutationRoots := by
        rw [heffective, hgiven]
        exact List.mem_map_of_mem hr
      exact (contained_iff_insideIssued h hissued hstored (hwritten r hr)).1 (hall _ hmem)
  · intro free haccepts hinside
    obtain ⟨effective, heffective⟩ : ∃ effective, effectiveMutationRoots fs options
        (normalizeScope fs (mapCapabilityRow cap).scope.toInput) = .ok effective := by
      by_cases hnil : roots = []
      · exact ⟨_, effectiveMutationRoots_ok_iff.2 (.inl ⟨hgiven.trans hnil, rfl⟩)⟩
      · refine ⟨_, effectiveMutationRoots_ok_iff.2 (.inr ⟨hgiven ▸ hnil, rfl, ?_⟩)⟩
        rw [hgiven, hpaths]
        intro rr hrr
        obtain ⟨r, hr, rfl⟩ := List.mem_map.1 hrr
        exact (contained_iff_insideIssued h hissued hstored (hwritten r hr)).2 (hinside r hr)
    obtain ⟨cap', hcap', hadmissible, hwalk, hwithin⟩ :=
      admission_ok_iff.1 (accepts_iff.1 haccepts)
    obtain rfl : cap' = mapCapabilityRow cap := by
      have hsame : storedCapability s options.capabilityId = some cap' := hcap'
      rw [hrow] at hsame
      exact (Option.some.inj hsame).symm
    obtain ⟨result, hresult⟩ := withinScope_of_roots hwithin heffective
    exact ⟨result, accepts_iff.2 (admission_ok_iff.2
      ⟨_, hrow, hadmissible, hwalk, hresult⟩)⟩

end Admission

/-! ## A link and a route directory -/

/-- A file system with one link, from `/link` to `/w`. -/
def linkedFiles : FileSystem where
  cwd := []
  realpathSync := fun path =>
    some (if path.head? = some "link" then "w" :: path.tail else path)
  existsSync := fun _ => true

theorem linkedFiles_lawful : linkedFiles.Lawful where
  cwd := by
    intro name hname
    cases hname
  proper := by
    intro path real hpath hreal
    cases hreal
    split
    · intro name hname
      rcases List.mem_cons.1 hname with rfl | htail
      · unfold ProperName
        decide
      · exact hpath name (List.mem_of_mem_tail htail)
    · exact hpath
  root := rfl
  exists_iff := fun _ => rfl
  parent := by
    intro path rest hnone
    cases hnone
  through := by
    intro path real rest hreal
    cases hreal
    cases path with
    | nil => rfl
    | cons name =>
      by_cases hlink : name = "link"
      · subst hlink
        rfl
      · simp [linkedFiles, hlink]

/-- What is asked for with the paths: nothing but them. -/
def onlyPaths (paths : List String) : IssueArguments :=
  .legacy { opcodes := some [], paths := some paths } "agent" none

/-- A domain whose one capability is issued for the paths. -/
def issuedFor (fs : FileSystem) (paths : List String) : ExecutionDomain :=
  CapabilityStep.after fs (.issueCapability (onlyPaths paths) "1" 1) firstEpoch

/-- A request to write to a root. -/
def asksFor (root : String) : CheckCapabilityAdmissionOptions where
  domainId := "d"
  currentEpoch := 1
  capabilityId := "cap-1"
  mutationRoots := some [root]

theorem accepts_of_isOk {s : SqliteStore} {now : Timestamp}
    {options : CheckCapabilityAdmissionOptions}
    (h : (admission fs s now options).map Except.isOk = some true) :
    ∃ result, Accepts fs s now options result := by
  obtain ⟨answer, hanswer, hok⟩ := Option.map_eq_some_iff.1 h
  cases answer with
  | error => cases hok
  | ok result => exact ⟨result, accepts_iff.2 hanswer⟩

/-- A directory issued through the link admits a name with brackets in the directory. -/
theorem link_admits_inside : ∃ result,
    Accepts linkedFiles (issuedFor linkedFiles ["/link"]).store 2 (asksFor "/w/x[id]/f") result := by
  obtain ⟨free, hfree⟩ : ∃ free, Accepts linkedFiles (issuedFor linkedFiles ["/link"]).store 2
      { asksFor "/w/x[id]/f" with mutationRoots := none } free :=
    accepts_of_isOk (by decide +kernel)
  have hcut : CutsCleanly linkedFiles "/w/x[id]/f" := by
    refine .inl ⟨?_, by decide +kernel⟩
    unfold ProperName
    decide +kernel
  have hissue : ∃ cap, issuedCapability linkedFiles firstEpoch (onlyPaths ["/link"]) "1" 1 =
      .ok cap ∧ cap.scope.paths = ["/w"] ∧
      (issuedFor linkedFiles ["/link"]).store.getCapability "cap-1" = some cap :=
    ⟨_, rfl, by decide +kernel, rfl⟩
  obtain ⟨cap, hissue, hpaths, hstored⟩ := hissue
  refine (admits_exactly_inside linkedFiles_lawful hissue ?_ ?_ hstored rfl ?_ 2).2 free hfree ?_
  · intro p hp
    obtain rfl := List.mem_singleton.1 hp
    exact .inl (by decide +kernel)
  · intro q hq
    rw [hpaths] at hq
    obtain rfl := List.mem_singleton.1 hq
    exact .inl (by decide +kernel)
  · intro r hr
    obtain rfl := List.mem_singleton.1 hr
    exact .inr ⟨hcut, by decide +kernel⟩
  · intro r hr
    obtain rfl := List.mem_singleton.1 hr
    exact ⟨"/link", List.mem_singleton_self _, by decide +kernel⟩

/-- A wildcard right behind a separator is taken for a part of the name before it: a capability for
    what is inside `/a` admits a root next to it, and one for `/w` does not admit a route directory
    inside. -/
theorem wildcard_joins_names :
    ((admission (plainFiles []) (issuedFor (plainFiles []) ["/a/*"]).store 2
        (asksFor "/a*/x")).map Except.isOk = some true ∧
      ¬ InsideIssued (plainFiles []) ["/a/*"] "/a*/x") ∧
    ((admission (plainFiles []) (issuedFor (plainFiles []) ["/w"]).store 2
        (asksFor "/w/[id]")).map Except.isOk = some false ∧
      InsideIssued (plainFiles []) ["/w"] "/w/[id]") := by
  refine ⟨⟨by decide +kernel, ?_⟩, by decide +kernel, ?_⟩
  · rintro ⟨p, hp, hinside⟩
    obtain rfl := List.mem_singleton.1 hp
    revert hinside
    decide +kernel
  · exact ⟨"/w", List.mem_singleton_self _, by decide +kernel⟩

end XioFlow
