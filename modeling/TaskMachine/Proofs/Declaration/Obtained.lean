import TaskMachine.Proofs.Declaration.Sound
import TaskMachine.Proofs.Json.Obtained

/-!
# Declarations that were read are sound

Whatever a reader of a declaration takes out of a document is sound: it can be written down
again.  A comparison with `null` is not read as a comparison in the first place, a mode that
combines guards is not read as a plain one, and no number of a document is infinite.

Guards and nodes are read down to a depth; the inductions go over it.
-/

namespace TaskMachine

open Record

/-! ## Guards -/

namespace Guard

/-- What was read of a guard is sound, before its mode is looked at. -/
structure Flat.Sound (flat : Flat) : Prop where
  value : ∀ value ∈ flat.value, value ≠ .null
  condition : ∀ guard ∈ flat.condition, guard.Sound
  conditions : ∀ guards ∈ flat.conditions, ∀ guard ∈ guards, guard.Sound

theorem yields_record {inner : Reader Guard} (h : inner.Yields Sound) :
    (record inner).Yields Flat.Sound := by
  refine .seq (.seq (.seq (.seq (.map (yields_any _) ?_) (yields_any _))
    (yields_nullable Reader.yields_nullable_json)) (yields_optional h)) (yields_optional h.list)
  intro mode _ subject _ value hvalue condition hcondition conditions hconditions
  exact ⟨hvalue, hcondition, hconditions⟩

/-- A field that a mode needs is there. -/
theorem exists_of_map_need {α : Type} {mode name : String} {field : Option α} {f : α → Guard}
    {guard : Guard} (h : (need mode name field).map f = .ok guard) :
    ∃ value ∈ field, f value = guard := by
  cases field with
  | none => cases h
  | some value =>
      cases h
      exact ⟨value, rfl, rfl⟩

/-- The mode decides what becomes of the fields; none of the modes makes an unsound guard. -/
theorem sound_of_ofFlat {flat : Flat} {guard : Guard} (h : flat.Sound)
    (hguard : ofFlat flat = .ok guard) : guard.Sound := by
  unfold ofFlat at hguard
  split at hguard
  next =>
    obtain ⟨conditions, hmem, rfl⟩ := exists_of_map_need hguard
    exact allSound_iff.mpr (h.conditions conditions hmem)
  next hand =>
    split at hguard
    next =>
      obtain ⟨conditions, hmem, rfl⟩ := exists_of_map_need hguard
      exact allSound_iff.mpr (h.conditions conditions hmem)
    next hor =>
      split at hguard
      next =>
        obtain ⟨condition, hmem, rfl⟩ := exists_of_map_need hguard
        exact h.condition condition hmem
      next hnot =>
        obtain ⟨subject, _, rfl⟩ := exists_of_map_need hguard
        -- With a value it is a comparison, without one a check.
        have hplain : IsPlain flat.mode := ⟨hand, hor, hnot⟩
        cases hvalue : flat.value with
        | none => exact hplain
        | some value => exact ⟨hplain, h.value value hvalue⟩

theorem yields_readerTo (depth : Nat) : (readerTo depth).Yields Sound := by
  induction depth with
  | zero => exact Reader.yields_error _
  | succ depth ih =>
      refine (yields_record ih).reader.andThen ?_
      intro flat hflat guard hguard
      exact sound_of_ofFlat hflat hguard

theorem yields : reader.Yields Sound :=
  fun circumstance document => yields_readerTo document.depth circumstance document

end Guard

/-! ## Targets -/

theorem Target.yields_readerBy {node : Reader ControlNode}
    (h : node.Yields ControlNode.Sound) : (readerBy node).Yields Sound := by
  apply Reader.yields_untagged
  intro document target hfinite hread
  split at hread
  next name =>
    cases hread
    exact trivial
  next =>
    obtain ⟨inner, hinner, rfl⟩ := Option.map_eq_some_iff.mp hread
    cases hnode : node .aside document with
    | error fault =>
        rw [hnode] at hinner
        cases hinner
    | ok node =>
        rw [hnode] at hinner
        cases hinner
        exact h .aside document inner hfinite hnode

theorem ChoiceBranch.yields_readerBy {target : Reader Target} (h : target.Yields Target.Sound) :
    (readerBy target).Yields Sound := by
  refine (Reader.yields_flattened (yields_required h) Guard.yields).andThen ?_
  rintro ⟨next, guard⟩ ⟨hnext, hguard⟩ branch hbranch
  cases hbranch
  exact ⟨hguard, hnext⟩

namespace ControlNode

/-- Nodes of every kind are sound where the targets are. -/
theorem yields_kinds {target : Reader Target} (h : target.Yields Target.Sound) :
    ∀ kind ∈ kinds target, kind.2.Yields Sound := by
  intro kind hkind
  simp only [kinds, List.mem_cons, List.not_mem_nil, or_false] at hkind
  rcases hkind with rfl | rfl | rfl | rfl | rfl | rfl | rfl
  · -- wait
    refine .seq (.map (yields_any _) ?_) (yields_required h)
    intro seconds _ next hnext
    exact hnext
  · -- fail
    refine .seq (.map (yields_any _) ?_) (yields_any _)
    intro cause _ error _
    exact trivial
  · -- pass
    refine .seq (.map (yields_optional h) ?_) (yields_any _)
    intro next hnext ended _
    exact soundTarget_iff.mpr hnext
  · -- succeed
    exact yields_pure trivial
  · -- choice
    refine .seq (.map (yields_required (ChoiceBranch.yields_readerBy h).list) ?_)
      (yields_optional h)
    intro branches hbranches otherwise hotherwise
    exact ⟨soundBranches_iff.mpr hbranches, soundTarget_iff.mpr hotherwise⟩
  · -- parallel
    refine .seq (.seq (.map (yields_required h.list) ?_) (yields_optional h)) (yields_any _)
    intro branches hbranches next hnext ended _
    exact ⟨soundTargets_iff.mpr hbranches, soundTarget_iff.mpr hnext⟩
  · -- map
    refine .seq (.seq (.seq (.map (yields_any _) ?_) (yields_any _)) (yields_any _))
      (yields_optional h)
    intro items _ processor _ maxConcurrency _ next hnext
    exact soundTarget_iff.mpr hnext

theorem yields_readerTo (depth : Nat) : (readerTo depth).Yields Sound := by
  induction depth with
  | zero => exact Reader.yields_error _
  | succ depth ih => exact Reader.yields_tagged (yields_kinds (Target.yields_readerBy ih))

theorem yields : reader.Yields Sound :=
  fun circumstance document => yields_readerTo document.depth circumstance document

end ControlNode

theorem Target.yields : reader.Yields Sound := yields_readerBy ControlNode.yields

theorem ChoiceBranch.yields : reader.Yields Sound := yields_readerBy Target.yields

/-! ## Tasks and resources -/

theorem RetryRule.yields : reader.Yields Sound := by
  refine (Yields.seq (.seq (.seq (.map (yields_any _) ?_) (yields_any _)) (yields_any _))
    (yields_optional Reader.yields_double)).reader
  intro errorEquals _ intervalSeconds _ maxAttempts _ backoffRate hrate
  exact hrate

theorem CatchRule.yields : reader.Yields Sound := by
  refine (Yields.seq (.seq (.map (yields_any _) ?_) (yields_required Target.yields))
    (yields_any _)).reader
  intro errorEquals _ next hnext resultPath _
  exact hnext

theorem LeafTask.yields : reader.Yields Sound := by
  refine (Yields.seq (.seq (.seq (.seq (.seq (.seq (.map (yields_any _) ?_) (yields_any _))
    (yields_any _)) (yields_defaulted_list RetryRule.yields))
    (yields_defaulted_list CatchRule.yields)) (yields_optional Target.yields))
    (yields_any _)).reader
  intro name _ function _ params _ retry hretry catches hcatches next hnext ended _
  exact ⟨hretry, hcatches, hnext⟩

theorem ResourceKind.yields : reader.Yields fun kind => kind.startAt.Sound := by
  apply Reader.yields_tagged
  intro kind hkind
  simp only [List.mem_cons, List.not_mem_nil, or_false] at hkind
  rcases hkind with rfl | rfl
  · refine .map (yields_required Target.yields) ?_
    intro startAt hstart
    exact hstart
  · refine .seq (.seq (.map (yields_required Target.yields) ?_) (yields_any _)) (yields_any _)
    intro startAt hstart mode _ executionType _
    exact hstart

namespace Resource

theorem yields_record : record.Yields fun parts => ∀ task ∈ parts.2.2, task.Sound := by
  refine .seq (.seq (.map (yields_any _) ?_) (yields_any _))
    (yields_defaulted_list LeafTask.yields)
  intro name _ source _ tasks htasks
  exact htasks

theorem yields : reader.Yields Sound := by
  refine (Reader.yields_flattened yields_record ResourceKind.yields).andThen ?_
  rintro ⟨⟨name, source, tasks⟩, kind⟩ ⟨htasks, hstart⟩ resource hresource
  cases hresource
  exact ⟨hstart, htasks⟩

end Resource

theorem Manifest.yields : reader.Yields Sound := by
  refine (Yields.map (yields_defaulted_list Resource.yields) ?_).reader
  intro resources hresources
  exact hresources

end TaskMachine
