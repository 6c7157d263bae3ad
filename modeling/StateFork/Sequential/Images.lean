import StateFork.Controller.Calculators
import StateFork.Sequential.Attach
import StateFork.Sequential.ToolFailures

/-!
# Image names

`ContainerAttachManager.__init__` takes what stands before the first colon of the base image for its repository, but a
registry may bring a colon of its own, and a reference may have no tag. `OneRepository` says that the constructor
succeeds, and that what is committed and what is measured is in the repository of the base image.
-/

namespace StateFork

open Conc Conc.Prog EnvironmentManager

/-! ### References -/

/-- A part of a reference that follows a colon, if it is there. -/
def behindColon : Option String → String
  | none => ""
  | some part => ":" ++ part

/-- The registry of a reference: a name or an address, which may have colons as well, and a port. -/
structure Registry where
  host : String
  port : Option String := none

/-- An image reference `[registry[:port]/]path[:tag]`. -/
structure ImageReference where
  registry : Option Registry := none
  path : String
  tag : Option String := none
  colon_not_mem_path : ':' ∉ path.toList := by decide
  not_mem_tag : ∀ t ∈ tag, ':' ∉ t.toList ∧ '/' ∉ t.toList := by decide

namespace ImageReference

def location : Option Registry → String
  | none => ""
  | some registry => registry.host ++ behindColon registry.port ++ "/"

def repository (r : ImageReference) : String := location r.registry ++ r.path

def text (r : ImageReference) : String := r.repository ++ behindColon r.tag

/-- The repository has no colon exactly where the registry has no port, nor an address with colons. -/
theorem colon_not_mem_repository {r : ImageReference} :
    ':' ∉ r.repository.toList ↔ ∀ registry ∈ r.registry, registry.port = none ∧ ':' ∉ registry.host.toList := by
  have hpath := r.colon_not_mem_path
  unfold repository location
  rcases r.registry with _ | ⟨host, _ | port⟩
  · simpa using hpath
  · simp [behindColon, hpath]
  · simp [behindColon]

end ImageReference

/-! ### The first colon -/

theorem splitOnce_append {sep : Char} {a text : String} {b : List Char} (h : sep ∉ a.toList)
    (htext : text.toList = a.toList ++ sep :: b) : splitOnce sep text = .ok (a, String.ofList b) := by
  have ha : ∀ c ∈ a.toList, decide (c ≠ sep) = true := fun c hc => decide_eq_true fun he : c = sep => h (he ▸ hc)
  unfold splitOnce
  rw [htext, List.dropWhile_append_of_pos ha, List.takeWhile_append_of_pos ha]
  simp

theorem not_mem_of_splitOnce {sep : Char} {text a b : String} (h : splitOnce sep text = .ok (a, b)) :
    sep ∉ a.toList := by
  intro hmem
  unfold splitOnce at h
  split at h
  · cases h
  · cases h
    rw [String.toList_ofList] at hmem
    have hne := List.mem_takeWhile_imp hmem
    exact of_decide_eq_true hne rfl

/-! ### The constructor -/

inductive BackendType where
  | docker
  | podman
  deriving DecidableEq

namespace BackendType

def text : BackendType → String
  | docker => "Docker"
  | podman => "Podman"

def command : BackendType → String
  | docker => "docker"
  | podman => "podman"

theorem getBackendTool_text (backend : BackendType) : getBackendTool backend.text = .ok (backend.command, backend.text) := by
  cases backend <;> rfl

end BackendType

/-- The arguments with which `_collect` of an `ImageCalculator` lists images. -/
def NewCalculator.listing : NewCalculator → Option (List String)
  | .imageCalculator cli repository => some [cli, "images", repository, "--format",
      "\x7b\x7b.Repository\x7d\x7d:\x7b\x7b.Tag\x7d\x7d \x7b\x7b.Size\x7d\x7d"]
  | _ => none

namespace ContainerAttachManager

/-- `ContainerAttachManager.__init__`: the fields, and the calculator that it attaches. -/
def attach {W : Type} (backend containerName baseImage : String) (extraArgs : Option (List String)) :
    M W (ContainerAttachManager × NewCalculator) :=
  match getBackendTool backend with
  | .error e => throw e
  | .ok (backendCmd, _) =>
    match splitOnce ':' baseImage with
    | .error e => throw e
    | .ok (imagePrefix, _) => do
      registerSnapshotResource "base" baseImage
      initTree "base"
      return ({ backendCmd, containerName, imagePrefix, extraArgs := extraArgs.getD [] },
        .imageCalculator backendCmd imagePrefix)

variable {W : Type} {w : W}

theorem run_attach {baseImage imagePrefix rest : String} (h : splitOnce ':' baseImage = .ok (imagePrefix, rest))
    (backend : BackendType) (containerName : String) (extraArgs : Option (List String)) :
    (attach backend.text containerName baseImage extraArgs).run ⟨Manager.init, w⟩ =
      (.ok (⟨backend.command, containerName, imagePrefix, extraArgs.getD []⟩,
        .imageCalculator backend.command imagePrefix), ⟨Manager.startedAt "base" baseImage, w⟩) := by
  unfold attach
  rw [backend.getBackendTool_text, h]
  dsimp only
  rw [registerSnapshotResource, run_bind, run_updateState, run_afterValue_ok, run_bind, run_initTree, run_afterValue_ok]
  rfl

theorem run_attach_of_error {baseImage : String} {e : PyError} (h : splitOnce ':' baseImage = .error e)
    (backend : BackendType) (containerName : String) (extraArgs : Option (List String)) :
    (attach backend.text containerName baseImage extraArgs).run ⟨Manager.init, w⟩ = (.error e, ⟨Manager.init, w⟩) := by
  unfold attach
  rw [backend.getBackendTool_text, h]
  rfl

/-- The constructor leaves the manager that `init` leaves, and raises what it raises. -/
theorem run_attach_eq_init (backend : BackendType) (containerName baseImage : String) (extraArgs : Option (List String))
    (w : Attaching W) :
    let r := (attach backend.text containerName baseImage extraArgs).run ⟨Manager.init, w⟩
    (init baseImage).run ⟨Manager.init, w⟩ = (r.1.map fun _ => (), r.2) := by
  unfold init
  rcases h : splitOnce ':' baseImage with e | ⟨imagePrefix, rest⟩
  · rw [run_attach_of_error h]
    rfl
  · rw [run_attach h]
    dsimp only
    rw [registerSnapshotResource, run_bind, run_updateState, run_afterValue_ok, run_initTree]
    rfl

/-! ### The images of a run -/

end ContainerAttachManager

/-- The image that an action commits. -/
def Action.committedImage : Action → Option String
  | .command [_, "commit", _, image] => some image
  | _ => none

/-- Every image that was committed is in the repository. -/
def Attaching.CommitsTo {W : Type} (repository : String) (w : Attaching W) : Prop :=
  ∀ image ∈ w.issued.filterMap Action.committedImage, ∃ id, image = repository ++ ":" ++ id

/-- Every image that is registered for a snapshot has the id of the snapshot as its tag. -/
def Manager.RegistersIn (repository : String) (m : Manager) : Prop :=
  ∀ id image, m.snapshots.get? id = some image → id = "base" ∨ image = repository ++ ":" ++ id

/-- The images of a system are in the repository. -/
structure InRepository {W : Type} (repository : String) (s : Sys (Attaching W)) : Prop where
  committed : s.world.CommitsTo repository
  registered : s.mgr.RegistersIn repository

namespace ContainerAttachManager

variable {W : Type} (self : ContainerAttachManager) (T : AttachHost W)

/-- `_core_snapshot` commits an image of the repository with the id of the snapshot as its tag. -/
def SnapshotsTo (repository : String) : Prop :=
  ∀ branchId w,
    let snapshotId := ((T.uuid4Hex w.host).1.take 8).toString
    let r := (self.backend T.traced).snapshot branchId w
    r.2.issued =
        w.issued ++ [.command [self.backendCmd, "commit", self.containerName, repository ++ ":" ++ snapshotId]] ∧
      ∀ id resource elapsed, r.1 = .ok (some (id, resource), elapsed) →
        id = snapshotId ∧ resource = repository ++ ":" ++ snapshotId

/-- The constructor succeeds, its calculator asks for the repository of the base image, and in any run the images that
are committed and registered for snapshots are in it. -/
def OneRepository (host : W) (backend : BackendType) (containerName : String) (baseImage : ImageReference)
    (extraArgs : Option (List String)) : Prop :=
  ∃ self calculator s,
    (attach backend.text containerName baseImage.text extraArgs).run ⟨Manager.init, { host }⟩ =
        (.ok (self, calculator), s) ∧
      (∃ format, NewCalculator.listing calculator =
        some [backend.command, "images", baseImage.repository, "--format", format]) ∧
      self.SnapshotsTo T baseImage.repository ∧
      ∀ ops, Throughout (self.backend T.traced) (InRepository baseImage.repository) ops s

variable {self T} {w : Attaching W}

theorem snapshotsTo_imagePrefix : self.SnapshotsTo T self.imagePrefix := by
  intro branchId w
  simp only [backend, ToolHost.captureWith, traced_run, traced_time, traced_uuid4Hex, traced_describe]
  rcases T.run (self.commit ((T.uuid4Hex w.host).1.take 8).toString) (T.time (T.uuid4Hex w.host).2).2 with
    ⟨e | status, w'⟩
  · exact ⟨rfl, fun _ _ _ h => by cases h⟩
  · by_cases hstatus : status ≠ 0
    · simp only [if_pos hstatus, Bool.false_eq_true, if_false]
      exact ⟨rfl, fun _ _ _ h => by cases h⟩
    · simp only [if_neg hstatus]
      refine ⟨rfl, fun id resource elapsed h => ?_⟩
      obtain ⟨hcaptured, -⟩ := Prod.mk.inj (Except.ok.inj h)
      obtain ⟨hid, hresource⟩ := Prod.mk.inj (Option.some.inj hcaptured)
      exact ⟨hid.symm, hresource.symm⟩

end ContainerAttachManager

namespace Attaching

variable {W : Type} {repository : String} {w w' : Attaching W}

theorem CommitsTo.log (h : w.CommitsTo repository) {a : Action}
    (ha : ∀ image ∈ a.committedImage, ∃ id, image = repository ++ ":" ++ id) (hw' : w'.issued = w.issued ++ [a]) :
    w'.CommitsTo repository := by
  intro image himage
  rw [hw', List.filterMap_append, List.mem_append] at himage
  rcases himage with himage | himage
  · exact h image himage
  · obtain ⟨a', ha', hcommitted⟩ := List.mem_filterMap.mp himage
    obtain rfl := List.mem_singleton.mp ha'
    exact ha image hcommitted

/-- An action that commits nothing. -/
theorem CommitsTo.log_other (h : w.CommitsTo repository) {a : Action} (ha : a.committedImage = none)
    (hw' : w'.issued = w.issued ++ [a]) : w'.CommitsTo repository := by
  refine h.log (fun image himage => ?_) hw'
  rw [ha] at himage
  cases himage

end Attaching

theorem Action.committedImage_of_ne {cmd name : String} (h : name ≠ "commit") (args : List String) :
    (Action.command (cmd :: name :: args)).committedImage = none := by
  unfold committedImage
  split
  · next heq =>
    cases heq
    exact absurd rfl h
  · rfl

namespace ContainerAttachManager

variable {W : Type} {self : ContainerAttachManager} {T : AttachHost W} {repository : String} {w : Attaching W}

/-- No other hook commits. -/
theorem commitsTo_exec (h : w.CommitsTo repository) (command : Command) (timeout : Option ℚ) (branchId : String) :
    ((self.backend T.traced).exec command timeout branchId w).2.CommitsTo repository :=
  h.log_other (Action.committedImage_of_ne (by decide) _) rfl

theorem commitsTo_restore (h : w.CommitsTo repository) (snapshotId resource branchId : String) :
    ((self.backend T.traced).restore snapshotId resource branchId w).2.CommitsTo repository := by
  have hremoval {w' : Attaching W} (hw' : w'.issued = w.issued ++ [.command self.removal]) :
      w'.CommitsTo repository :=
    h.log_other (Action.committedImage_of_ne (by decide) _) hw'
  have hlaunch {w' : Attaching W}
      (hw' : w'.issued = w.issued ++ [.command self.removal] ++ [.command (self.launch resource)]) :
      w'.CommitsTo repository :=
    have hfirst : ({ w with issued := w.issued ++ [.command self.removal] } : Attaching W).CommitsTo repository :=
      hremoval rfl
    hfirst.log_other (Action.committedImage_of_ne (by decide) _) hw'
  simp only [backend, ToolHost.restoreWith, traced_run, traced_time, traced_describe]
  by_cases hresource : resource = ""
  · rw [if_pos hresource]
    exact h
  · rw [if_neg hresource]
    rcases T.run self.removal w.host with ⟨e | status, w₁⟩
    · exact hremoval rfl
    · dsimp only
      rcases T.run (self.launch resource) (T.time w₁).2 with ⟨e | status, w₂⟩
      · exact hlaunch rfl
      · by_cases hstatus : status ≠ 0
        · simp only [if_pos hstatus]
          exact hlaunch rfl
        · simp only [if_neg hstatus]
          exact hlaunch rfl

theorem commitsTo_snapshot (hself : self.SnapshotsTo T repository) (h : w.CommitsTo repository) (branchId : String) :
    ((self.backend T.traced).snapshot branchId w).2.CommitsTo repository := by
  refine h.log (fun image himage => ?_) (hself branchId w).1
  obtain rfl : image = _ := (Option.mem_some.mp himage).symm
  exact ⟨_, rfl⟩

/-- Every operation keeps the images in the repository. -/
theorem inRepository_effect (hself : self.SnapshotsTo T repository) {s : Sys (Attaching W)} (h : InRepository repository s)
    (op : SeqOp) : InRepository repository (op.effect (self.backend T.traced) s) where
  committed := by
    refine op.effect_world _ (fun _ _ hw => hw) (fun w hw => ?_) (fun id resource w hw => ?_) (fun c t w hw => ?_)
      (fun _ hw => hw) (fun _ hw => hw) h.committed
    · exact commitsTo_snapshot hself hw _
    · exact commitsTo_restore hw id resource _
    · exact commitsTo_exec hw c t _
  registered := by
    intro id' image hget
    rcases op.snapshots_effect (self.backend T.traced) s with hsame | ⟨w, id, resource, elapsed, hook, hset⟩
    · rw [hsame] at hget
      exact h.registered id' image hget
    · obtain ⟨rfl, rfl⟩ := (hself defaultBranchId w).2 id resource elapsed hook
      rw [hset, Dict.get?_set] at hget
      by_cases hid : id' = ((T.uuid4Hex w.host).1.take 8).toString
      · rw [if_pos hid] at hget
        cases hget
        exact .inr (hid ▸ rfl)
      · rw [if_neg hid] at hget
        exact h.registered id' image hget

theorem throughout_inRepository (hself : self.SnapshotsTo T repository) {s : Sys (Attaching W)} (hs : Solo s.mgr)
    (h : InRepository repository s) (ops : List SeqOp) :
    Throughout (self.backend T.traced) (InRepository repository) ops s := by
  refine Run.throughout_of_eachStep (I := fun s => Solo s.mgr) (C := fun _ _ => True) hs solo_step
    (fun op _ s hs h _ => ?_) h (Run.eachStep_of_forall fun _ _ _ _ => trivial)
  rw [op.run_prog _ hs]
  exact inRepository_effect hself h op

section

variable {host : W} {backend : BackendType} {containerName : String} {baseImage : ImageReference}
  {extraArgs : Option (List String)}

/-- What the calculator asks for shows that the first colon stands before the tag. -/
theorem OneRepository.tagged (h : OneRepository T host backend containerName baseImage extraArgs) :
    baseImage.tag.isSome ∧ ':' ∉ baseImage.repository.toList := by
  obtain ⟨self, calculator, s, hrun, ⟨format, hlisting⟩, -⟩ := h
  rcases hsplit : splitOnce ':' baseImage.text with e | ⟨imagePrefix, rest⟩
  · rw [run_attach_of_error hsplit] at hrun
    cases hrun
  · rw [run_attach hsplit] at hrun
    cases hrun
    have hrepository : imagePrefix = baseImage.repository := by
      have hsecond := congrArg (fun words => words.map (·[2]?)) hlisting
      exact Option.some.inj (Option.some.inj hsecond)
    have hcolon := not_mem_of_splitOnce hsplit
    have htext := splitOnce_ok_iff.mp ⟨_, hsplit⟩
    rw [hrepository] at hcolon
    refine ⟨Option.isSome_iff_ne_none.mpr fun htag => hcolon ?_, hcolon⟩
    rw [ImageReference.text, htag] at htext
    simpa [behindColon] using htext

theorem oneRepository_of_tagged (htag : baseImage.tag.isSome) (hcolon : ':' ∉ baseImage.repository.toList) :
    OneRepository T host backend containerName baseImage extraArgs := by
  obtain ⟨tag, htag⟩ := Option.isSome_iff_exists.mp htag
  have htext : baseImage.text.toList = baseImage.repository.toList ++ ':' :: tag.toList := by
    simp [ImageReference.text, htag, behindColon]
  have hrun := run_attach (w := ({ host } : Attaching W)) (splitOnce_append hcolon htext) backend containerName extraArgs
  refine ⟨_, _, _, hrun, ⟨_, rfl⟩, snapshotsTo_imagePrefix, fun ops => ?_⟩
  refine throughout_inRepository snapshotsTo_imagePrefix (Manager.startedAt_solo ..) ⟨fun image h => ?_, ?_⟩ ops
  · cases h
  · intro id image hget
    have hbase : ((Dict.empty : Dict String String).set "base" baseImage.text).get? id = some image := hget
    rw [Dict.get?_set] at hbase
    by_cases hid : id = "base"
    · exact .inl hid
    · rw [if_neg hid] at hbase
      cases hbase

end

/-- The images stay in the repository of the base image exactly where it has a tag, and a registry without a port and
without colons in its address. -/
theorem oneRepository_iff (T : AttachHost W) (host : W) (backend : BackendType) (containerName : String)
    (baseImage : ImageReference) (extraArgs : Option (List String)) :
    OneRepository T host backend containerName baseImage extraArgs ↔
      baseImage.tag.isSome ∧
        ∀ registry ∈ baseImage.registry, registry.port = none ∧ ':' ∉ registry.host.toList := by
  rw [← ImageReference.colon_not_mem_repository]
  exact ⟨fun h => h.tagged, fun h => oneRepository_of_tagged h.1 h.2⟩

end ContainerAttachManager

def AttachHost.scripted : AttachHost ToolScript where
  toToolHost := .scripted
  pidExists _ w := (true, w)
  terminate _ _ _ w := (.ok (), w)
  rmtree _ w := (.ok (), w)

/-- `localhost:5000/app:base` and `ubuntu`. -/
theorem ContainerAttachManager.not_oneRepository_port :
    ¬ OneRepository .scripted ⟨[], ["16fd2706"]⟩ .docker "web"
        { registry := some ⟨"localhost", some "5000"⟩, path := "app", tag := some "base" } none ∧
      ¬ OneRepository .scripted ⟨[], ["16fd2706"]⟩ .docker "web" { path := "ubuntu" } none := by
  constructor
  · intro h
    exact absurd h.tagged.2 (by decide)
  · intro h
    exact absurd h.tagged.1 (by decide)

end StateFork
