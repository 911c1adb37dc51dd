import TaskMachine.Proofs.Compilation.Check
import TaskMachine.Proofs.Expansion.Notices

/-!
# What a check notes

A check that succeeds has noted successors that it ignores, and `DryRun.ignored` lists them.
They are accounted for by the states of the machine that was made: each state, in the machine or
in a graph inside it, stands for one site of the declaration, and there is one notice for each
state whose site declares both an end and a successor (`check_notices`).  A node that has several
states is noted for each of them, and one that is not reached is not noted.
-/

namespace TaskMachine
namespace Manifest

/-- Sites account for the notices that were left while a graph was made. -/
structure Accounts (manifest : Manifest) (root : Site) (graph : StateGraph)
    (ignored : List IgnoredNext) (sites : List Site) : Prop where
  attributes : manifest.Attributes root graph sites
  /-- No other sites could be meant. -/
  unique : ∀ others, manifest.Attributes root graph others → others = sites
  /-- There is one site for each state, over all levels. -/
  madeAt : List.Forall₂ State.MadeAt graph.allStates sites
  /-- No site is out of reach. -/
  reached : ∀ site ∈ sites, manifest.ReachedSite root site
  /-- There is one notice for each site with an end and a successor, and no other. -/
  noted : ignored.Perm ((sites.filter Site.ignoresNext).map Site.notice)

/-- Whatever a machine is built with, its sites account for the notices. -/
theorem accounts_of_build {σ : Type} {manifest : Manifest} {settings : Settings}
    {source : UnitSource σ} {units : σ} {resource : Resource} {machine : StateMachine}
    {progress : Progress σ}
    (h : manifest.build settings source units resource = .ok (machine, progress)) :
    ∃ sites, manifest.Accounts (.start [] resource) machine.graph progress.ignored sites := by
  obtain ⟨graph, hrun, rfl, _⟩ := build_eq_ok.mp h
  obtain ⟨sites, hsites, hignored⟩ := Expansion.notes_compile hrun
  have hrooted := (Expansion.rooted_compile _ resource _).of_ok hrun
  exact ⟨sites, {
    attributes := hsites
    unique := fun _ hothers => hothers.unique hrooted hsites
    madeAt := hsites.madeAt
    reached := hsites.reached hrooted .root
    noted := hignored }⟩

/-- What a check that succeeds has noted is accounted for by the states of its machine. -/
theorem check_notices {manifest : Manifest} {settings : Settings} {name : String} {plan : Plan}
    (h : manifest.check settings name = .ok plan) :
    ∃ dry resource sites, manifest.dryRun settings name = .ok dry ∧ dry.plan = plan ∧
      manifest.resource? name = some resource ∧
      manifest.Accounts (.start [] resource) dry.machine.graph dry.ignored sites := by
  obtain ⟨dry, hdry, rfl⟩ := check_eq_ok.mp h
  obtain ⟨_, resource, progress, hresource, hbuild, hparts⟩ := dryRun_eq_ok.mp hdry
  obtain ⟨sites, hsites⟩ := accounts_of_build hbuild
  have hignored : dry.ignored = progress.ignored := by rw [hparts]
  rw [← hignored] at hsites
  exact ⟨dry, resource, sites, hdry, rfl, hresource, hsites⟩

/-- A task whose error ends the path and goes on, as do the branches that follow it, a task in
one of them, the node that an iterator of two others begins with, and a task that is not
reached. -/
def roundsManifest : Manifest where
  resources := [
    { name := "rounds"
      source := ⟨"code", "rounds"⟩
      kind := .stateMachine (.leaf "load")
      tasks := [
        { name := "load"
          catches := [⟨["States.ALL"], .inline (.pass (some (.leaf "store")) true), none⟩]
          next := some (.inline (.parallel
            [.leaf "store", .inline (.map (.path "items") "visit" none none),
              .inline (.map (.path "items") "visit" none none)]
            (some (.leaf "load")) true)) },
        { name := "store", next := some (.leaf "load"), ended := true },
        { name := "rest", next := some (.leaf "load"), ended := true }] },
    { name := "visit"
      source := ⟨"code", "visit"⟩
      kind := .mapIterator (.inline (.pass (some (.inline .succeed)) true)) none none }]

/-- The node of the iterator is noted for both of its maps. -/
theorem check_notices_rounds :
    ∃ dry resource sites, roundsManifest.dryRun {} "rounds" = .ok dry ∧
      roundsManifest.resource? "rounds" = some resource ∧
      roundsManifest.Accounts (.start [] resource) dry.machine.graph dry.ignored sites ∧
      dry.ignored = [⟨"rounds", "load"⟩, ⟨"rounds", "store"⟩, ⟨"visit", "start-map_load_3"⟩,
        ⟨"visit", "start-map_load_4"⟩, ⟨"rounds", "load"⟩] := by
  have hignored : (roundsManifest.dryRun {} "rounds").toOption.map DryRun.ignored =
      some [⟨"rounds", "load"⟩, ⟨"rounds", "store"⟩, ⟨"visit", "start-map_load_3"⟩,
        ⟨"visit", "start-map_load_4"⟩, ⟨"rounds", "load"⟩] := by
    decide +kernel
  cases hdry : roundsManifest.dryRun {} "rounds" with
  | error fault =>
      rw [hdry] at hignored
      cases hignored
  | ok dry =>
      rw [hdry] at hignored
      obtain ⟨_, resource, sites, hsame, _, hresource, hsites⟩ :=
        check_notices (check_eq_ok.mpr ⟨dry, hdry, rfl⟩)
      rw [hdry] at hsame
      cases hsame
      exact ⟨dry, resource, sites, rfl, hresource, hsites, Option.some.inj hignored⟩

end Manifest
end TaskMachine
