/-
  XioFlow.Services.Readiness

  The readiness check of a service on its standard output.

  Each chunk is decoded and split into lines by itself, so the check sees the
  fragments of the chunks where it means the lines of the output.  A regular
  expression with the global or the sticky flag starts at its `lastIndex`.
-/

import XioFlow.Lib.Place
import XioFlow.Lib.Utf8Decoder
import XioFlow.Lib.Distinct

namespace XioFlow.Services

open Lib

/-! ## Regular expressions -/

/-- A `RegExp`: its pattern, the flags that `test` reads, and where the next search starts. -/
structure RegExp where
  /-- The end of the match that starts at an index of a text. -/
  matchAt : Utf16 → Nat → Option Nat
  global : Bool := false
  sticky : Bool := false
  fullUnicode : Bool := false
  lastIndex : Nat := 0

namespace RegExp

/-- `test` reads and writes `lastIndex`. -/
def stateful (r : RegExp) : Bool := r.global || r.sticky

/-- `AdvanceStringIndex` -/
def advance (r : RegExp) (s : Utf16) (index : Nat) : Nat :=
  let paired := (s[index]?.any CodeUnit.isHigh) && (s[index + 1]?.any CodeUnit.isLow)
  if r.fullUnicode && paired then index + 2 else index + 1

/-- The end of the first match from an index on, with as many attempts as there are places. -/
def searchFrom (r : RegExp) (s : Utf16) : Nat → Nat → Option Nat
  | 0, _ => none
  | attempts + 1, index =>
    if s.length < index then none
    else match r.matchAt s index with
      | some last => some last
      | none => if r.sticky then none else searchFrom r s attempts (r.advance s index)

def search (r : RegExp) (s : Utf16) (index : Nat) : Option Nat :=
  r.searchFrom s (s.length + 1) index

/-- `regex.test(line)` -/
def test (r : RegExp) (s : Utf16) : Bool × RegExp :=
  match r.search s (if r.stateful then r.lastIndex else 0) with
  | some last => (true, if r.stateful then { r with lastIndex := last } else r)
  | none => (false, if r.stateful then { r with lastIndex := 0 } else r)

/-- The expression matches the text. -/
def Matches (r : RegExp) (s : Utf16) : Bool := (r.search s 0).isSome

end RegExp

/-! ## The check -/

inductive ReadinessStatus where
  | starting
  | running (matchedLine : Utf16)
  /-- `readiness_timeout` -/
  | failed
  deriving DecidableEq

/-- What `setupReadiness` keeps between two events. -/
structure ReadinessCheck where
  regex : RegExp
  status : ReadinessStatus := .starting

inductive ReadinessEvent where
  | data (chunk : List UInt8)
  | timeout

/-- `text.split('\n')` -/
def splitLines (text : List Char) : List Utf16 := (splitAtChar '\n' text).map Utf16.ofChars

namespace ReadinessCheck

/-- The loop over the lines of a chunk. -/
def testLines (s : ReadinessCheck) : List Utf16 → ReadinessCheck
  | [] => s
  | line :: lines =>
    let (hit, regex) := s.regex.test line
    if hit then { s with regex, status := .running line } else testLines { s with regex } lines

/-- `onData`; the listener is gone once the check is decided. -/
def onData (s : ReadinessCheck) (chunk : List UInt8) : ReadinessCheck :=
  if s.status = .starting then s.testLines (splitLines (Utf8Decoder.decode chunk)) else s

def step (s : ReadinessCheck) : ReadinessEvent → ReadinessCheck
  | .data chunk => s.onData chunk
  | .timeout => if s.status = .starting then { s with status := .failed } else s

def run (s : ReadinessCheck) (events : List ReadinessEvent) : ReadinessCheck := events.foldl step s

end ReadinessCheck

/-- The outcome for an output that comes in these chunks before the timeout. -/
def readiness (r : RegExp) (chunks : List (List UInt8)) (later : List ReadinessEvent) :
    ReadinessStatus :=
  ((⟨r, .starting⟩ : ReadinessCheck).run (chunks.map .data ++ .timeout :: later)).status

/-! ## What is claimed -/

/-- The lines of an output; what stands behind the last line feed is one if it is not empty. -/
def outputLines (output : List UInt8) : List Utf16 :=
  let pieces := splitLines (Utf8Decoder.decode output)
  if pieces.getLast? = some [] then pieces.dropLast else pieces

/-- The service becomes ready exactly if a line matches, and reports the first that does. -/
def ReadyOnFirstLine (r : RegExp) (chunks : List (List UInt8)) : Prop :=
  ∀ later, readiness r chunks later =
    match (outputLines chunks.flatten).find? r.Matches with
    | some line => .running line
    | none => .failed

/-! ## When it is so -/

/-- What the check takes for lines: the pieces of each chunk by itself. -/
def fragments (chunks : List (List UInt8)) : List Utf16 :=
  chunks.flatMap fun chunk => splitLines (Utf8Decoder.decode chunk)

/-- The texts that can decide: an expression that does not match the empty text passes over empty
    texts, and one that matches it gets no further than the first. -/
def deciding (matchesEmpty : Bool) : List Utf16 → List Utf16
  | [] => []
  | t :: ts =>
    if t = [] then if matchesEmpty then [t] else deciding matchesEmpty ts
    else t :: deciding matchesEmpty ts

/-- Repetitions aside, the deciding fragments are the deciding lines. -/
def SameTexts (matchesEmpty : Bool) (chunks : List (List UInt8)) : Prop :=
  (deciding matchesEmpty (fragments chunks)).eraseDups =
    (deciding matchesEmpty (outputLines chunks.flatten)).eraseDups

/-- The first search starts at the beginning of its text; or it starts behind the end, and the
    text is one to pass over or comes once more. -/
def StartsFresh (matchesEmpty : Bool) (lastIndex : Nat) (chunks : List (List UInt8)) : Prop :=
  lastIndex = 0 ∨ ∀ first rest, fragments chunks = first :: rest →
    (first = [] ∧ matchesEmpty = false) ∨
      (first.length < lastIndex ∧ (deciding matchesEmpty rest).head? = some first)

/-! ## One search -/

namespace RegExp

theorem searchFrom_lastIndex (r : RegExp) (k : Nat) (s : Utf16) (attempts index : Nat) :
    ({ r with lastIndex := k }).searchFrom s attempts index = r.searchFrom s attempts index := by
  induction attempts generalizing index with
  | zero => rfl
  | succ attempts ih =>
    unfold searchFrom
    rw [ih]
    rfl

theorem search_lastIndex (r : RegExp) (k : Nat) (s : Utf16) (index : Nat) :
    ({ r with lastIndex := k }).search s index = r.search s index :=
  searchFrom_lastIndex r k s _ index

theorem matches_lastIndex (r : RegExp) (k : Nat) : ({ r with lastIndex := k }).Matches = r.Matches := by
  funext s
  unfold Matches
  rw [search_lastIndex]

variable {s : Utf16}

/-- Behind the end of the text nothing is found. -/
theorem search_of_lt (r : RegExp) {index : Nat} (h : s.length < index) :
    r.search s index = none := by
  unfold search searchFrom
  exact if_pos h

theorem search_of_match (r : RegExp) {index last : Nat} (h : index ≤ s.length)
    (hmatch : r.matchAt s index = some last) : r.search s index = some last := by
  unfold search searchFrom
  rw [if_neg (Nat.not_lt.2 h), hmatch]

theorem search_of_no_match (r : RegExp) (h : ∀ index, r.matchAt s index = none)
    (index : Nat) : r.search s index = none := by
  unfold search
  generalize s.length + 1 = attempts
  induction attempts generalizing index with
  | zero => rfl
  | succ attempts ih =>
    unfold searchFrom
    rw [h index, ih]
    simp

theorem test_fst (r : RegExp) (s : Utf16) :
    (r.test s).1 = (r.search s (if r.stateful then r.lastIndex else 0)).isSome := by
  unfold test
  cases r.search s (if r.stateful then r.lastIndex else 0) with
  | none => rfl
  | some => rfl

/-- The next search starts at the beginning of the text. -/
def Fresh (r : RegExp) : Prop := r.stateful = false ∨ r.lastIndex = 0

variable {r : RegExp}

theorem Fresh.test (h : r.Fresh) (s : Utf16) : (r.test s).1 = r.Matches s := by
  have hstart : (if r.stateful then r.lastIndex else 0) = 0 := by
    rcases h with hflags | hindex
    · rw [hflags]
      rfl
    · rw [hindex, ite_self]
  rw [test_fst, hstart]
  rfl

/-- After a miss the search starts at the beginning of the next text. -/
theorem after_miss (h : (r.test s).1 = false) :
    (r.test s).2.Fresh ∧ (r.test s).2.Matches = r.Matches := by
  unfold RegExp.test at h ⊢
  cases hsearch : r.search s (if r.stateful then r.lastIndex else 0) with
  | some =>
    rw [hsearch] at h
    cases h
  | none =>
    cases hflags : r.stateful with
    | true => exact ⟨.inr rfl, matches_lastIndex r 0⟩
    | false => exact ⟨.inl hflags, rfl⟩

/-- The first of some texts that the test accepts, one after the other. -/
def firstHit (r : RegExp) : List Utf16 → Option Utf16
  | [] => none
  | s :: rest => if (r.test s).1 then some s else firstHit (r.test s).2 rest

theorem Fresh.firstHit (h : r.Fresh) (texts : List Utf16) :
    r.firstHit texts = texts.find? r.Matches := by
  induction texts generalizing r with
  | nil => rfl
  | cons s rest ih =>
    rw [RegExp.firstHit, List.find?_cons, h.test]
    cases hmatch : r.Matches s with
    | true => rfl
    | false =>
      obtain ⟨hfresh, hsame⟩ := after_miss ((h.test s).trans hmatch)
      rw [if_neg Bool.false_ne_true, ih hfresh, hsame]

theorem firstHit_cons (r : RegExp) (s : Utf16) (rest : List Utf16) :
    r.firstHit (s :: rest) = if (r.test s).1 then some s else rest.find? r.Matches := by
  rw [firstHit]
  cases hmatch : (r.test s).1 with
  | true => rfl
  | false =>
    obtain ⟨hfresh, hsame⟩ := after_miss hmatch
    rw [if_neg Bool.false_ne_true, if_neg Bool.false_ne_true, hfresh.firstHit, hsame]

end RegExp

/-! ## The run -/

namespace ReadinessCheck

theorem testLines_cons (s : ReadinessCheck) (line : Utf16) (lines : List Utf16) :
    s.testLines (line :: lines) =
      if (s.regex.test line).1 then ⟨(s.regex.test line).2, .running line⟩
      else testLines ⟨(s.regex.test line).2, s.status⟩ lines := rfl

theorem testLines_append {r : RegExp} (xs ys : List Utf16) :
    (⟨r, .starting⟩ : ReadinessCheck).testLines (xs ++ ys) =
      if ((⟨r, .starting⟩ : ReadinessCheck).testLines xs).status = .starting then
        ((⟨r, .starting⟩ : ReadinessCheck).testLines xs).testLines ys
      else (⟨r, .starting⟩ : ReadinessCheck).testLines xs := by
  induction xs generalizing r with
  | nil => exact (if_pos rfl).symm
  | cons line xs ih =>
    rw [List.cons_append, testLines_cons, testLines_cons]
    cases (r.test line).1 with
    | true => exact (if_neg (fun h => by cases h)).symm
    | false => exact ih

theorem testLines_status (r : RegExp) (lines : List Utf16) :
    ((⟨r, .starting⟩ : ReadinessCheck).testLines lines).status =
      match r.firstHit lines with
      | some line => .running line
      | none => .starting := by
  induction lines generalizing r with
  | nil => rfl
  | cons line lines ih =>
    rw [testLines_cons, RegExp.firstHit]
    cases (r.test line).1 with
    | true => rfl
    | false => exact ih _

/-- Once the check is decided it stays so. -/
theorem run_decided {s : ReadinessCheck} (h : s.status ≠ .starting) (events : List ReadinessEvent) :
    s.run events = s := by
  induction events with
  | nil => rfl
  | cons event events ih =>
    have hstep : s.step event = s := by
      cases event with
      | data | timeout => exact if_neg h
    rw [run, List.foldl_cons, hstep]
    exact ih

theorem run_append (s : ReadinessCheck) (xs ys : List ReadinessEvent) :
    s.run (xs ++ ys) = (s.run xs).run ys := List.foldl_append

/-- Chunk by chunk the check goes through the fragments. -/
theorem run_data (r : RegExp) (chunks : List (List UInt8)) :
    (⟨r, .starting⟩ : ReadinessCheck).run (chunks.map .data) =
      (⟨r, .starting⟩ : ReadinessCheck).testLines (fragments chunks) := by
  induction chunks generalizing r with
  | nil => rfl
  | cons chunk chunks ih =>
    have hfragments : fragments (chunk :: chunks) =
        splitLines (Utf8Decoder.decode chunk) ++ fragments chunks := rfl
    rw [hfragments, testLines_append, List.map_cons, run, List.foldl_cons]
    show ((⟨r, .starting⟩ : ReadinessCheck).onData chunk).run (chunks.map .data) = _
    rw [onData, if_pos rfl]
    cases hs : (⟨r, .starting⟩ : ReadinessCheck).testLines (splitLines (Utf8Decoder.decode chunk)) with
    | mk regex status =>
      by_cases hstarting : status = .starting
      · subst hstarting
        rw [if_pos rfl]
        exact ih regex
      · rw [if_neg hstarting]
        exact run_decided hstarting _

end ReadinessCheck

theorem readiness_eq (r : RegExp) (chunks : List (List UInt8)) (later : List ReadinessEvent) :
    readiness r chunks later =
      match r.firstHit (fragments chunks) with
      | some line => .running line
      | none => .failed := by
  have hstatus := ReadinessCheck.testLines_status r (fragments chunks)
  unfold readiness
  rw [ReadinessCheck.run_append, ReadinessCheck.run_data]
  cases hs : (⟨r, .starting⟩ : ReadinessCheck).testLines (fragments chunks) with
  | mk regex status =>
    rw [hs] at hstatus
    cases hhit : r.firstHit (fragments chunks) with
    | some line =>
      rw [hhit] at hstatus
      have hrunning : status = .running line := hstatus
      subst hrunning
      rw [ReadinessCheck.run_decided (fun h => by cases h)]
    | none =>
      rw [hhit] at hstatus
      have hstarting : status = .starting := hstatus
      subst hstarting
      show ((⟨regex, .failed⟩ : ReadinessCheck).run later).status = .failed
      rw [ReadinessCheck.run_decided (fun h => by cases h)]

theorem readyOnFirstLine_iff {r : RegExp} {chunks : List (List UInt8)} :
    ReadyOnFirstLine r chunks ↔
      r.firstHit (fragments chunks) = (outputLines chunks.flatten).find? r.Matches := by
  unfold ReadyOnFirstLine
  simp only [readiness_eq]
  constructor
  · intro h
    have hsame := h []
    cases hhit : r.firstHit (fragments chunks) with
    | none =>
      cases hfind : (outputLines chunks.flatten).find? r.Matches with
      | none => rfl
      | some =>
        rw [hhit, hfind] at hsame
        cases hsame
    | some =>
      cases hfind : (outputLines chunks.flatten).find? r.Matches with
      | none =>
        rw [hhit, hfind] at hsame
        cases hsame
      | some =>
        rw [hhit, hfind] at hsame
        injection hsame with hline
        rw [hline]
  · intro h later
    rw [h]

/-! ## Deciding texts -/

variable {matchesEmpty : Bool}

theorem find?_deciding {p : Utf16 → Bool} (hp : p [] = matchesEmpty) (texts : List Utf16) :
    (deciding matchesEmpty texts).find? p = texts.find? p := by
  induction texts with
  | nil => rfl
  | cons t ts ih =>
    rw [deciding]
    by_cases ht : t = []
    · subst ht
      rw [if_pos rfl, List.find?_cons, hp]
      cases matchesEmpty with
      | true =>
        rw [if_pos rfl, List.find?_cons, hp]
      | false =>
        rw [if_neg Bool.false_ne_true]
        exact ih
    · rw [if_neg ht, List.find?_cons, List.find?_cons, ih]

/-- A test, with a given answer for the empty text. -/
def onEmpty (matchesEmpty : Bool) (p : Utf16 → Bool) (t : Utf16) : Bool :=
  if t = [] then matchesEmpty else p t

/-- An empty text comes last among the deciding ones, so its answer does not hide another. -/
theorem find?_onEmpty (matchesEmpty : Bool) (p : Utf16 → Bool) (texts : List Utf16) :
    (deciding matchesEmpty texts).find? p =
      ((deciding matchesEmpty texts).find? (onEmpty matchesEmpty p)).filter p := by
  induction texts with
  | nil => rfl
  | cons t ts ih =>
    rw [deciding]
    by_cases ht : t = []
    · subst ht
      rw [if_pos rfl]
      cases matchesEmpty with
      | true => cases hp : p [] <;> simp [onEmpty, Option.filter, hp]
      | false =>
        rw [if_neg Bool.false_ne_true]
        exact ih
    · have hsame : onEmpty matchesEmpty p t = p t := if_neg ht
      rw [if_neg ht, List.find?_cons, List.find?_cons, hsame]
      cases hp : p t with
      | true => simp [Option.filter, hp]
      | false => exact ih

theorem sameTexts_iff {chunks : List (List UInt8)} :
    SameTexts matchesEmpty chunks ↔ ∀ p : Utf16 → Bool, p [] = matchesEmpty →
      (fragments chunks).find? p = (outputLines chunks.flatten).find? p := by
  unfold SameTexts
  rw [eraseDups_eq_iff_find?]
  constructor
  · intro h p hp
    rw [← find?_deciding hp, h p, find?_deciding hp]
  · intro h p
    have hsame := h (onEmpty matchesEmpty p) (if_pos rfl)
    rw [← find?_deciding (if_pos rfl), ← find?_deciding (if_pos rfl) (outputLines _)] at hsame
    rw [find?_onEmpty, hsame, ← find?_onEmpty]

/-! ## Which outputs are read line by line -/

/-- An expression for whole texts: it matches the texts that satisfy a test, at any index. -/
def wholeText (p : Utf16 → Bool) (sticky : Bool) (lastIndex : Nat) : RegExp where
  matchAt := fun s index => if p s then some index else none
  sticky := sticky
  lastIndex := lastIndex

theorem matches_wholeText (p : Utf16 → Bool) (sticky : Bool) (lastIndex : Nat) :
    (wholeText p sticky lastIndex).Matches = p := by
  funext s
  unfold RegExp.Matches
  cases hp : p s with
  | true =>
    have hmatch : (wholeText p sticky lastIndex).matchAt s 0 = some 0 := if_pos hp
    rw [RegExp.search_of_match _ (Nat.zero_le _) hmatch]
    rfl
  | false =>
    rw [RegExp.search_of_no_match _ fun index => if_neg (by rw [hp]; exact Bool.false_ne_true)]
    rfl

/-- An expression that matches one text at one index only, and maybe the empty text. -/
def lookingBehind (matchesEmpty : Bool) (text : Utf16) (index : Nat) : RegExp where
  matchAt := fun s i =>
    if (s = text ∧ i = index) ∨ (matchesEmpty = true ∧ s = []) then some i else none
  sticky := true
  lastIndex := index

theorem matches_lookingBehind {text : Utf16} {index : Nat} (h : index ≠ 0) (s : Utf16) :
    (lookingBehind matchesEmpty text index).Matches s = (matchesEmpty && s == []) := by
  by_cases hempty : matchesEmpty = true ∧ s = []
  · have hmatch : (lookingBehind matchesEmpty text index).matchAt s 0 = some 0 :=
      if_pos (.inr hempty)
    rw [RegExp.Matches, RegExp.search_of_match _ (Nat.zero_le _) hmatch, hempty.1, hempty.2]
    rfl
  · have hmiss : (lookingBehind matchesEmpty text index).matchAt s 0 = none := by
      refine if_neg ?_
      rintro (⟨-, hindex⟩ | hboth)
      · exact h hindex.symm
      · exact hempty hboth
    have hright : (matchesEmpty && s == []) = false := by
      cases matchesEmpty with
      | false => rfl
      | true => simpa using hempty
    rw [hright]
    unfold RegExp.Matches RegExp.search RegExp.searchFrom
    rw [hmiss]
    simp [lookingBehind]

theorem test_lookingBehind (matchesEmpty : Bool) {text : Utf16} {index : Nat}
    (h : index ≤ text.length) : ((lookingBehind matchesEmpty text index).test text).1 = true := by
  have hmatch : (lookingBehind matchesEmpty text index).matchAt text index = some index :=
    if_pos (.inl ⟨rfl, rfl⟩)
  have hsearch : (lookingBehind matchesEmpty text index).search text index = some index :=
    RegExp.search_of_match _ h hmatch
  rw [RegExp.test_fst]
  exact congrArg Option.isSome hsearch

section

variable {chunks : List (List UInt8)} {matchesEmpty : Bool} {lastIndex : Nat}

theorem startsFresh_of_ready
    (h : ∀ r : RegExp, r.lastIndex = lastIndex → r.Matches [] = matchesEmpty →
      ReadyOnFirstLine r chunks)
    (hsame : SameTexts matchesEmpty chunks) : StartsFresh matchesEmpty lastIndex chunks := by
  by_cases hzero : lastIndex = 0
  · exact .inl hzero
  refine .inr fun first rest hfragments => ?_
  by_cases hempty : first = [] ∧ matchesEmpty = false
  · exact .inl hempty
  have hbehind : first.length < lastIndex := by
    -- Otherwise an expression may match just there, and no line from its beginning.
    refine Nat.not_le.1 fun hle => ?_
    have hmatches : ∀ s, (lookingBehind matchesEmpty first lastIndex).Matches s =
        (matchesEmpty && s == []) := matches_lookingBehind hzero
    have hready := readyOnFirstLine_iff.1 (h (lookingBehind matchesEmpty first lastIndex) rfl
      (by rw [hmatches]; simp))
    rw [hfragments, RegExp.firstHit_cons, if_pos (test_lookingBehind matchesEmpty hle)] at hready
    have hmatch := List.find?_some hready.symm
    rw [hmatches, Bool.and_eq_true, beq_iff_eq] at hmatch
    rw [hmatch.2] at hle
    exact hzero (Nat.le_zero.1 hle)
  refine .inr ⟨hbehind, ?_⟩
  -- An expression that matches every text, the empty one as it has to.
  have hp : onEmpty matchesEmpty (fun _ => true) [] = matchesEmpty := if_pos rfl
  have hready := readyOnFirstLine_iff.1
    (h (wholeText (onEmpty matchesEmpty fun _ => true) true lastIndex) rfl
      (by rw [matches_wholeText, hp]))
  have hmiss : ((wholeText (onEmpty matchesEmpty fun _ => true) true lastIndex).test first).1 =
      false := by
    rw [RegExp.test_fst]
    exact congrArg Option.isSome (RegExp.search_of_lt (wholeText _ true lastIndex) hbehind)
  have hhit : onEmpty matchesEmpty (fun _ => true) first = true := by
    unfold onEmpty
    by_cases hfirst : first = []
    · rw [if_pos hfirst]
      exact eq_true_of_ne_false fun hfalse => hempty ⟨hfirst, hfalse⟩
    · exact if_neg hfirst
  rw [hfragments, RegExp.firstHit_cons, hmiss, if_neg Bool.false_ne_true, matches_wholeText,
    ← sameTexts_iff.1 hsame _ hp, hfragments, List.find?_cons_of_pos hhit,
    ← find?_deciding hp] at hready
  have hall : ∀ texts : List Utf16, (deciding matchesEmpty texts).find?
      (onEmpty matchesEmpty fun _ => true) = (deciding matchesEmpty texts).head? := by
    intro texts
    induction texts with
    | nil => rfl
    | cons t ts ih =>
      rw [deciding]
      by_cases ht : t = []
      · subst ht
        rw [if_pos rfl]
        cases matchesEmpty with
        | true => rfl
        | false => exact ih
      · rw [if_neg ht]
        exact List.find?_cons_of_pos (if_neg ht)
  rw [← hall]
  exact hready

end

/-- For all expressions with this `lastIndex` and this answer for the empty text, the service
    becomes ready on the first line that matches exactly if the chunks show the deciding lines in
    their order and the first search starts fresh. -/
theorem readiness_chunking_iff (chunks : List (List UInt8)) (matchesEmpty : Bool)
    (lastIndex : Nat) :
    (∀ r : RegExp, r.lastIndex = lastIndex → r.Matches [] = matchesEmpty →
      ReadyOnFirstLine r chunks) ↔
        SameTexts matchesEmpty chunks ∧ StartsFresh matchesEmpty lastIndex chunks := by
  constructor
  · intro h
    have hsame : SameTexts matchesEmpty chunks := by
      refine sameTexts_iff.2 fun p hp => ?_
      have hready := readyOnFirstLine_iff.1
        (h (wholeText p false lastIndex) rfl (by rw [matches_wholeText, hp]))
      have hfresh : (wholeText p false lastIndex).Fresh := .inl rfl
      rw [hfresh.firstHit, matches_wholeText] at hready
      exact hready
    exact ⟨hsame, startsFresh_of_ready h hsame⟩
  · rintro ⟨hsame, hstart⟩ r rfl hempty
    rw [readyOnFirstLine_iff, ← sameTexts_iff.1 hsame _ hempty]
    by_cases hfresh : r.Fresh
    · exact hfresh.firstHit _
    rw [RegExp.Fresh, not_or] at hfresh
    cases hfragments : fragments chunks with
    | nil => rfl
    | cons first rest =>
      rcases hstart with hzero | hbehind
      · exact absurd hzero hfresh.2
      have hstateful : r.stateful = true := eq_true_of_ne_false hfresh.1
      rw [RegExp.firstHit_cons]
      have hmiss : first.length < r.lastIndex → (r.test first).1 = false := by
        intro hlt
        rw [RegExp.test_fst, if_pos hstateful, RegExp.search_of_lt r hlt]
        rfl
      rcases hbehind first rest hfragments with ⟨hnil, hfalse⟩ | ⟨hlength, hagain⟩
      · -- The empty text would not have matched either.
        subst hnil
        have hpast : ([] : Utf16).length < r.lastIndex := Nat.pos_of_ne_zero hfresh.2
        rw [hmiss hpast, if_neg Bool.false_ne_true]
        exact (List.find?_cons_of_neg (by rw [hempty, hfalse]; exact Bool.false_ne_true)).symm
      · -- The text that was missed comes once more.
        rw [hmiss hlength, if_neg Bool.false_ne_true, ← find?_deciding hempty]
        cases hmatch : r.Matches first with
        | true =>
          rw [List.find?_cons_of_pos hmatch]
          cases hrest : deciding matchesEmpty rest with
          | nil =>
            rw [hrest] at hagain
            cases hagain
          | cons again =>
            rw [hrest] at hagain
            have hsame' : again = first := Option.some.inj hagain
            rw [hsame', List.find?_cons_of_pos hmatch]
        | false =>
          rw [find?_deciding hempty]
          exact (List.find?_cons_of_neg (by rw [hmatch]; exact Bool.false_ne_true)).symm

/-- `/^READY$/`, with its `lastIndex`. -/
def isReady (global : Bool) (lastIndex : Nat) : RegExp where
  matchAt := fun s index => if index = 0 ∧ s = Utf16.ofChars "READY".toList then some 5 else none
  global := global
  lastIndex := lastIndex

/-- The line is missed when it comes in two chunks, and by a global expression that was used
    before; and a part of a longer line is taken for it. -/
theorem readyLine_missed :
    ¬ ReadyOnFirstLine (isReady false 0) [utf8 "REA".toList, utf8 "DY\n".toList] ∧
      ¬ ReadyOnFirstLine (isReady true 5) [utf8 "READY\n".toList] ∧
      ¬ ReadyOnFirstLine (isReady false 0) [utf8 "NOT ".toList, utf8 "READY\n".toList] := by
  refine ⟨fun h => ?_, fun h => ?_, fun h => ?_⟩
  · exact absurd (h []) (by decide)
  · exact absurd (h []) (by decide)
  · exact absurd (h []) (by decide)

end XioFlow.Services
