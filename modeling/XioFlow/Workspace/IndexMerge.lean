/-
  XioFlow.Workspace.IndexMerge

  What becomes of the evidence of a transaction when its observations are
  merged: what was read, found and linked to adds up, the writes are the last
  ones, and the first captured symbol slice and manifest stay.
-/

import XioFlow.Workspace.IncrementalIndex
import Mathlib.Data.List.Induction

namespace XioFlow

open Lib

/-! ## Observations -/

/-- An optional property: left out, `null`, or a value. -/
inductive Hint (α : Type) where
  | absent
  | denied
  | given (value : α)

def Hint.value {α : Type} : Hint α → Option α
  | .given value => some value
  | _ => none

/-- What one inspection hands to `buildWorkspaceIncrementalIndex`.  A slice is a record: its names
    are distinct. -/
structure Observation where
  root : String
  readSet : Option (List String)
  writeSet : List WriteEntry
  discoverySet : Option (List String)
  symbolSlice : Hint (List (String × String)) := .absent
  ignoredManifest : Hint String := .absent
  pathDependencies : Option (List String)
  coverageNotes : List String := []
  distinct : ∀ slice, symbolSlice.value = some slice → (slice.map Prod.fst).Nodup

def Observation.input (o : Observation) : WorkspaceIncrementalIndexInput where
  root := o.root
  readSet := o.readSet
  writeSet := o.writeSet
  discoverySet := o.discoverySet
  symbolSlice := o.symbolSlice.value
  ignoredManifest := o.ignoredManifest.value
  pathDependencies := o.pathDependencies
  coverageNotes := o.coverageNotes

def Observation.index [Crypto] (o : Observation) : WorkspaceIncrementalIndex :=
  buildWorkspaceIncrementalIndex o.input

/-- The observations of a transaction, merged one after the other. -/
def mergeAll [Crypto] (first : Observation) (rest : List Observation) : WorkspaceIncrementalIndex :=
  rest.foldl (fun merged o => mergeWorkspaceIncrementalIndex (some merged) o.index) first.index

/-- `unknown < non_ignored < complete`; the builder gives no other coverage. -/
def WorkspaceIndexCoverage.rank : WorkspaceIndexCoverage → Nat
  | unknown => 0
  | declaredRoots => 1
  | nonIgnored => 2
  | complete => 3

/-! ## Normal forms -/

theorem writeEntryLe_total (a b : WriteEntry) :
    writeEntryLe a b = true ∨ writeEntryLe b a = true := by
  unfold writeEntryLe
  by_cases h : a.path = b.path
  · rw [if_pos h, if_pos h.symm]
    exact textLe_total _ _
  · rw [if_neg h, if_neg (Ne.symm h)]
    exact textLe_total _ _

theorem writeEntryLe_trans {a b c : WriteEntry} (hab : writeEntryLe a b = true)
    (hbc : writeEntryLe b c = true) : writeEntryLe a c = true := by
  unfold writeEntryLe at hab hbc ⊢
  by_cases h : a.path = b.path
  · by_cases h' : b.path = c.path
    · rw [if_pos h] at hab
      rw [if_pos h'] at hbc
      rw [if_pos (h.trans h')]
      exact textLe_trans hab hbc
    · rw [if_neg h'] at hbc
      rw [if_neg (h ▸ h'), h]
      exact hbc
  · rw [if_neg h] at hab
    by_cases h' : b.path = c.path
    · rw [if_neg (h' ▸ h), ← h']
      exact hab
    · rw [if_neg h'] at hbc
      have hac : a.path ≠ c.path := by
        intro heq
        rw [heq] at hab
        exact h' (textLe_antisymm hbc hab)
      rw [if_neg hac]
      exact textLe_trans hab hbc

theorem normalizeWriteSet_idem (values : List WriteEntry) :
    normalizeWriteSet (normalizeWriteSet values) = normalizeWriteSet values := by
  unfold normalizeWriteSet
  have htotal : Std.Total fun a b : WriteEntry => writeEntryLe a b = true := ⟨writeEntryLe_total⟩
  have htrans : IsTrans WriteEntry fun a b => writeEntryLe a b = true :=
    ⟨fun _ _ _ => writeEntryLe_trans⟩
  exact (List.pairwise_insertionSort _ values).insertionSort_eq

theorem stableSymbolSlice_perm (slice : List (String × String)) :
    (stableSymbolSlice slice).Perm slice :=
  (propertyOrder_perm _).trans (List.perm_insertionSort _ _)

/-- A record that is in order stays as it is. -/
theorem stableSymbolSlice_idem {slice : List (String × String)}
    (h : (slice.map Prod.fst).Nodup) :
    stableSymbolSlice (stableSymbolSlice slice) = stableSymbolSlice slice := by
  have htotal : Std.Total fun a b : String × String => textLe a.1 b.1 = true :=
    ⟨fun a b => textLe_total a.1 b.1⟩
  have htrans : IsTrans (String × String) fun a b => textLe a.1 b.1 = true :=
    ⟨fun _ _ _ => textLe_trans⟩
  have hordered : ∀ entries : List (String × String),
      (entries.insertionSort fun a b => textLe a.1 b.1 = true).Pairwise
        fun a b => textLe a.1 b.1 = true :=
    fun entries => List.pairwise_insertionSort _ entries
  have hperm : ((stableSymbolSlice slice).insertionSort fun a b => textLe a.1 b.1 = true).Perm
      (slice.insertionSort fun a b => textLe a.1 b.1 = true) :=
    ((List.perm_insertionSort _ _).trans (stableSymbolSlice_perm slice)).trans
      (List.perm_insertionSort _ _).symm
  have hsame : ∀ a b, a ∈ ((stableSymbolSlice slice).insertionSort
      fun a b => textLe a.1 b.1 = true) → b ∈ (slice.insertionSort
        fun a b => textLe a.1 b.1 = true) → textLe a.1 b.1 = true → textLe b.1 a.1 = true →
          a = b := by
    intro a b ha hb hab hba
    have hb' : b ∈ slice := (List.perm_insertionSort _ _).subset hb
    have ha' : a ∈ slice := (List.perm_insertionSort _ _).subset (hperm.subset ha)
    exact List.inj_on_of_nodup_map h ha' hb' (textLe_antisymm hab hba)
  have hsorted := List.Perm.eq_of_pairwise hsame (hordered _) (hordered _) hperm
  exact congrArg propertyOrder hsorted

/-! ## Sets of paths -/

/-- A set of paths of two observations: not known if one of them is not, else their union. -/
def Joined (a b m : Option (List String)) : Prop :=
  (m = none ↔ a = none ∨ b = none) ∧
    ∀ xs ys zs, a = some xs → b = some ys → m = some zs → ∀ t, t ∈ zs ↔ t ∈ xs ∨ t ∈ ys

theorem joined_mergeNullableSets (a b : Option (List String)) :
    Joined a b ((mergeNullableSets a b).map uniqueSorted) := by
  unfold Joined mergeNullableSets
  cases a with
  | none => exact ⟨by simp, nofun⟩
  | some =>
    cases b with
    | none => exact ⟨by simp, nofun⟩
    | some =>
      refine ⟨by simp, ?_⟩
      rintro _ _ _ ⟨⟩ ⟨⟩ ⟨⟩ t
      rw [mem_uniqueSorted, mem_uniqueSorted, List.mem_append]

/-- A set of paths of some observations: not known if one of them is not, else their union. -/
def JoinedAll (sets : List (Option (List String))) (m : Option (List String)) : Prop :=
  (m = none ↔ none ∈ sets) ∧ ∀ zs, m = some zs → ∀ t, t ∈ zs ↔ ∃ xs, some xs ∈ sets ∧ t ∈ xs

theorem JoinedAll.snoc {sets : List (Option (List String))} {a b m : Option (List String)}
    (h : JoinedAll sets a) (hm : Joined a b m) : JoinedAll (sets ++ [b]) m := by
  refine ⟨?_, fun zs hzs t => ?_⟩
  · rw [hm.1, h.1, List.mem_append, List.mem_singleton]
    exact or_congr_right eq_comm
  · cases a with
    | none => exact absurd hzs (by rw [hm.1.2 (Or.inl rfl)]; nofun)
    | some xs =>
      cases b with
      | none => exact absurd hzs (by rw [hm.1.2 (Or.inr rfl)]; nofun)
      | some ys =>
        rw [hm.2 xs ys zs rfl rfl hzs t, h.2 xs rfl t]
        constructor
        · rintro (⟨us, hus, ht⟩ | ht)
          · exact ⟨us, List.mem_append_left _ hus, ht⟩
          · exact ⟨ys, List.mem_append_right _ (List.mem_singleton.2 rfl), ht⟩
        · rintro ⟨us, hus, ht⟩
          rcases List.mem_append.1 hus with hold | hnew
          · exact Or.inl ⟨us, hold, ht⟩
          · obtain rfl := Option.some.inj (List.mem_singleton.1 hnew)
            exact Or.inr ht

theorem joinedAll_singleton {a : Option (List String)} : JoinedAll [a] a := by
  refine ⟨by rw [List.mem_singleton, eq_comm], ?_⟩
  rintro zs rfl t
  constructor
  · intro ht
    exact ⟨zs, List.mem_singleton.2 rfl, ht⟩
  · rintro ⟨xs, hxs, ht⟩
    rw [Option.some.inj (List.mem_singleton.1 hxs)] at ht
    exact ht

section Merge

variable [Crypto]

/-! ## Indexes of the builder -/

/-- An index of the builder, from a record of symbols or from none. -/
def Built (index : WorkspaceIncrementalIndex) : Prop :=
  ∃ input : WorkspaceIncrementalIndexInput,
    (∀ slice, input.symbolSlice = some slice → (slice.map Prod.fst).Nodup) ∧
      index = buildWorkspaceIncrementalIndex input

theorem Observation.built (o : Observation) : Built o.index := ⟨o.input, o.distinct, rfl⟩

variable {index : WorkspaceIncrementalIndex}

theorem Built.symbolSlice (h : Built index)
    {slice : List (String × String)} (hslice : index.symbolSlice = some slice) :
    (slice.map Prod.fst).Nodup ∧ stableSymbolSlice slice = slice := by
  obtain ⟨input, hdistinct, rfl⟩ := h
  obtain ⟨given, hgiven, rfl⟩ := Option.map_eq_some_iff.1 hslice
  have hnodup := hdistinct given hgiven
  exact ⟨((stableSymbolSlice_perm given).map Prod.fst).nodup_iff.2 hnodup,
    stableSymbolSlice_idem hnodup⟩

theorem Built.writeSet (h : Built index) :
    normalizeWriteSet index.writeSet = index.writeSet := by
  obtain ⟨input, -, rfl⟩ := h
  exact normalizeWriteSet_idem input.writeSet

/-- What was not observed makes the coverage unknown. -/
theorem Built.coverage_unknown_iff (h : Built index) :
    index.coverage = .unknown ↔
      index.readSet = none ∨ index.discoverySet = none ∨ index.pathDependencies = none := by
  obtain ⟨input, -, rfl⟩ := h
  show (indexBody input).coverage = .unknown ↔ input.readSet.map uniqueSorted = none ∨
    input.discoverySet.map uniqueSorted = none ∨ input.pathDependencies.map uniqueSorted = none
  unfold indexBody missingEvidence
  cases input.readSet <;> cases input.discoverySet <;> cases input.pathDependencies <;>
    cases hasManifest input <;> simp

/-- Otherwise the manifest decides. -/
theorem Built.coverage_complete_iff (h : Built index)
    (hknown : index.coverage ≠ .unknown) :
    index.coverage = .complete ↔ (nonEmpty index.ignoredManifest).isSome = true := by
  obtain ⟨input, -, rfl⟩ := h
  change (indexBody input).coverage ≠ .unknown at hknown
  show (indexBody input).coverage = .complete ↔ hasManifest input = true
  unfold indexBody at hknown ⊢
  simp only at hknown ⊢
  split at hknown
  · exact absurd rfl hknown
  · rename_i hobserved
    rw [if_neg hobserved]
    cases hasManifest input <;> simp

/-! ## One merge -/

/-- What a merge makes of the evidence before it and of an observation. -/
structure Accumulates (previous : WorkspaceIncrementalIndex) (o : Observation)
    (merged : WorkspaceIncrementalIndex) : Prop where
  readSet : Joined previous.readSet o.index.readSet merged.readSet
  discoverySet : Joined previous.discoverySet o.index.discoverySet merged.discoverySet
  pathDependencies :
    Joined previous.pathDependencies o.index.pathDependencies merged.pathDependencies
  writeSet : merged.writeSet = o.index.writeSet
  symbolSlice : o.symbolSlice ≠ .denied →
    merged.symbolSlice = previous.symbolSlice.or o.index.symbolSlice
  ignoredManifest : o.ignoredManifest ≠ .denied →
    merged.ignoredManifest = previous.ignoredManifest.or o.index.ignoredManifest
  unknown : merged.coverage = .unknown ↔
    previous.coverage = .unknown ∨ o.index.coverage = .unknown
  complete : merged.coverage ≠ .unknown →
    (merged.coverage = .complete ↔ (nonEmpty merged.ignoredManifest).isSome = true)
  verifies : parseWorkspaceIncrementalIndex (some merged.toJson) = some merged.toJson

variable {previous : WorkspaceIncrementalIndex}

theorem Built.merge (h : Built previous) (o : Observation) :
    Built (mergeWorkspaceIncrementalIndex (some previous) o.index) := by
  refine ⟨_, fun slice hslice => ?_, rfl⟩
  rcases Option.or_eq_some_iff.1 hslice with hprevious | ⟨-, hcurrent⟩
  · exact (h.symbolSlice hprevious).1
  · exact (o.built.symbolSlice hcurrent).1

theorem Built.accumulates (h : Built previous) (o : Observation) :
    Accumulates previous o (mergeWorkspaceIncrementalIndex (some previous) o.index) := by
  have hmerged := h.merge o
  have hread : Joined previous.readSet o.index.readSet
      (mergeWorkspaceIncrementalIndex (some previous) o.index).readSet :=
    joined_mergeNullableSets _ _
  have hdiscovery : Joined previous.discoverySet o.index.discoverySet
      (mergeWorkspaceIncrementalIndex (some previous) o.index).discoverySet :=
    joined_mergeNullableSets _ _
  have hlinks : Joined previous.pathDependencies o.index.pathDependencies
      (mergeWorkspaceIncrementalIndex (some previous) o.index).pathDependencies :=
    joined_mergeNullableSets _ _
  exact {
    readSet := hread
    discoverySet := hdiscovery
    pathDependencies := hlinks
    writeSet := o.built.writeSet
    symbolSlice := fun _ => by
      show (previous.symbolSlice.or o.index.symbolSlice).map stableSymbolSlice = _
      cases hprevious : previous.symbolSlice with
      | some => exact congrArg some (h.symbolSlice hprevious).2
      | none =>
        cases hcurrent : o.index.symbolSlice with
        | some => exact congrArg some (o.built.symbolSlice hcurrent).2
        | none => rfl
    ignoredManifest := fun _ => rfl
    unknown := by
      rw [hmerged.coverage_unknown_iff, h.coverage_unknown_iff, o.built.coverage_unknown_iff,
        hread.1, hdiscovery.1, hlinks.1]
      tauto
    complete := hmerged.coverage_complete_iff
    verifies := parse_toJson _ }

/-! ## Many merges -/

/-- What is left of a sequence of observations that were merged. -/
structure AccumulatesAll (observations : List Observation) (merged : WorkspaceIncrementalIndex) :
    Prop where
  readSet : JoinedAll (observations.map (·.index.readSet)) merged.readSet
  discoverySet : JoinedAll (observations.map (·.index.discoverySet)) merged.discoverySet
  pathDependencies :
    JoinedAll (observations.map (·.index.pathDependencies)) merged.pathDependencies
  writeSet : ∀ o, observations.getLast? = some o → merged.writeSet = o.index.writeSet
  symbolSlice : (∀ o ∈ observations, o.symbolSlice ≠ .denied) →
    merged.symbolSlice = observations.findSome? (·.index.symbolSlice)
  ignoredManifest : (∀ o ∈ observations, o.ignoredManifest ≠ .denied) →
    merged.ignoredManifest = observations.findSome? (·.index.ignoredManifest)
  unknown : merged.coverage = .unknown ↔ ∃ o ∈ observations, o.index.coverage = .unknown
  complete : merged.coverage ≠ .unknown →
    (merged.coverage = .complete ↔ (nonEmpty merged.ignoredManifest).isSome = true)
  verifies : parseWorkspaceIncrementalIndex (some merged.toJson) = some merged.toJson

theorem accumulatesAll_singleton (o : Observation) : AccumulatesAll [o] o.index where
  readSet := joinedAll_singleton
  discoverySet := joinedAll_singleton
  pathDependencies := joinedAll_singleton
  writeSet := by
    rintro _ ⟨⟩
    rfl
  symbolSlice _ := by simp
  ignoredManifest _ := by simp
  unknown := by simp
  complete := o.built.coverage_complete_iff
  verifies := parse_toJson _

theorem AccumulatesAll.snoc {observations : List Observation} {o : Observation}
    {merged : WorkspaceIncrementalIndex} (h : AccumulatesAll observations previous)
    (hmerged : Accumulates previous o merged) : AccumulatesAll (observations ++ [o]) merged where
  readSet := by
    rw [List.map_append, List.map_singleton]
    exact h.readSet.snoc hmerged.readSet
  discoverySet := by
    rw [List.map_append, List.map_singleton]
    exact h.discoverySet.snoc hmerged.discoverySet
  pathDependencies := by
    rw [List.map_append, List.map_singleton]
    exact h.pathDependencies.snoc hmerged.pathDependencies
  writeSet := by
    intro last hlast
    rw [List.getLast?_concat] at hlast
    cases hlast
    exact hmerged.writeSet
  symbolSlice := by
    intro hgiven
    have hprevious := h.symbolSlice fun o' ho' => hgiven o' (List.mem_append_left _ ho')
    rw [hmerged.symbolSlice (hgiven o (List.mem_append_right _ (List.mem_singleton.2 rfl))),
      List.findSome?_append, hprevious]
    simp
  ignoredManifest := by
    intro hgiven
    have hprevious := h.ignoredManifest fun o' ho' => hgiven o' (List.mem_append_left _ ho')
    rw [hmerged.ignoredManifest (hgiven o (List.mem_append_right _ (List.mem_singleton.2 rfl))),
      List.findSome?_append, hprevious]
    simp
  unknown := by
    rw [hmerged.unknown, h.unknown]
    simp only [List.mem_append, List.mem_singleton, or_and_right, exists_or, exists_eq_left]
  complete := hmerged.complete
  verifies := hmerged.verifies

theorem built_mergeAll (first : Observation) (rest : List Observation) :
    Built (mergeAll first rest) := by
  induction rest using List.reverseRecOn with
  | nil => exact first.built
  | append_singleton rest o ih =>
    unfold mergeAll at ih ⊢
    rw [List.foldl_append]
    exact ih.merge o

theorem accumulatesAll_mergeAll (first : Observation) (rest : List Observation) :
    AccumulatesAll (first :: rest) (mergeAll first rest) := by
  induction rest using List.reverseRecOn with
  | nil => exact accumulatesAll_singleton first
  | append_singleton rest o ih =>
    have hlast := ih.snoc ((built_mergeAll first rest).accumulates o)
    unfold mergeAll at hlast ⊢
    rw [List.foldl_append]
    exact hlast

/-- Merging adds up what was observed: one merge, and any number of them. -/
theorem merge_accumulates :
    (∀ (previous : WorkspaceIncrementalIndex) (o : Observation), Built previous →
      Accumulates previous o (mergeWorkspaceIncrementalIndex (some previous) o.index)) ∧
    ∀ (first : Observation) (rest : List Observation),
      AccumulatesAll (first :: rest) (mergeAll first rest) :=
  ⟨fun _ o h => h.accumulates o, accumulatesAll_mergeAll⟩

end Merge

/-- An inspection that finds nothing, with these declarations. -/
def Observation.declaring (symbol : String) (ignoredManifest : Hint String) : Observation where
  root := "/workspace"
  readSet := some []
  writeSet := []
  discoverySet := some []
  symbolSlice := .given [(symbol, "slice")]
  ignoredManifest
  pathDependencies := some []
  distinct := by
    rintro _ ⟨⟩
    exact List.nodup_singleton _

/-- A second declaration is merged into the first. -/
theorem declaring_twice_accumulates :
    let _ := plainCrypto
    (mergeWorkspaceIncrementalIndex (some (Observation.declaring "a.ts#foo" (.given "digest")).index)
      (Observation.declaring "b.ts#bar" .absent).index).symbolSlice =
        some [("a.ts#foo", "slice")] := by
  intro _
  have hmerge := merge_accumulates.1 (Observation.declaring "a.ts#foo" (.given "digest")).index
    (Observation.declaring "b.ts#bar" .absent) (Observation.built _)
  rw [hmerge.symbolSlice nofun]
  decide

/-! ## What is kept instead of replaced -/

/-- The evidence is never stronger than before, nor than what was observed, and what was declared
    last is what counts. -/
structure Weakens [Crypto] (previous : WorkspaceIncrementalIndex) (o : Observation)
    (merged : WorkspaceIncrementalIndex) : Prop where
  coverage :
    merged.coverage.rank ≤ min previous.coverage.rank o.index.coverage.rank
  readSet : merged.readSet = none ∨ Joined previous.readSet o.index.readSet merged.readSet
  discoverySet :
    merged.discoverySet = none ∨ Joined previous.discoverySet o.index.discoverySet merged.discoverySet
  pathDependencies : merged.pathDependencies = none ∨
    Joined previous.pathDependencies o.index.pathDependencies merged.pathDependencies
  writeSet : merged.writeSet = o.index.writeSet
  symbolSlice : o.symbolSlice ≠ .absent → merged.symbolSlice = o.index.symbolSlice
  ignoredManifest : o.ignoredManifest ≠ .absent →
    merged.ignoredManifest = o.index.ignoredManifest
  verifies : parseWorkspaceIncrementalIndex (some merged.toJson) = some merged.toJson

/-- The first symbol slice stays, and so does the manifest, and with it the coverage. -/
theorem first_declaration_stays :
    let _ := plainCrypto
    let previous := (Observation.declaring "a.ts#foo" (.given "digest")).index
    let o := Observation.declaring "b.ts#bar" .absent
    Built previous ∧
      ¬ Weakens previous o (mergeWorkspaceIncrementalIndex (some previous) o.index) := by
  intro _ previous o
  refine ⟨Observation.built _, fun hweakens => ?_⟩
  exact absurd hweakens.coverage (by decide)

end XioFlow
